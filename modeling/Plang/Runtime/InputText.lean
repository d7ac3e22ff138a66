import Plang.Library.Lookahead
import Plang.Runtime.IsoFile
import Plang.Runtime.Numbers

/-!
# Reading text

The readers of standard and Extended Pascal: those of a text file, which work on its window, and
those of a read that names no file, which take the characters of standard input as they come.
-/

namespace Plang

namespace Runtime

open Stdio

/-- The results of a reader: what it hands to the program, or reports as it ends the program. -/
inductive Delivered where
  | char (c : Char)
  | integer (value : Int)
  | real (bits : UInt64)
  | flag (answer : Bool)
  | readFormat (op : Text)
  | readIntRange (op token : Text)
  deriving DecidableEq

/-- The report of a program that is ended. -/
def Delivered.isReport : Delivered → Bool
  | .readFormat _ | .readIntRange _ _ => true
  | _ => false

namespace IsoCall

/-! ## Numbers -/

def isBlank (c : Char) : Bool := c == ' ' || c == '\t' || c == '\n' || c == '\r'
def isSign (c : Char) : Bool := c == '+' || c == '-'
def isPoint (c : Char) : Bool := c == '.'
def isExponent (c : Char) : Bool := c == 'e' || c == 'E'

/-- Collect the longest beginning that can form a number: digits, and for a real number a fraction
and an exponent, whose letter is noted in lower case. -/
def takeNumber {σ ω : Type} (scanner : Lookahead σ ω Char) (holds : (Char → Bool) → ω → Bool)
    (fuel : Nat) (real : Bool) : σ → Text × σ :=
  let digits := scanner.takeWhile (holds Char.isDigit) fuel
  let signed := Lookahead.append (scanner.takeIf (holds isSign)) digits
  if real then
    Lookahead.append signed
      (Lookahead.append (scanner.takeThen (holds isPoint) digits)
        (Lookahead.noting (List.modifyHead fun _ => 'e')
          (scanner.takeThen (holds isExponent) signed)))
  else signed

/-- The integer that was read; past the end of the file it is zero. -/
def parseInteger (sawAny : Bool) (token : Text) : Delivered :=
  if ¬sawAny then .integer 0
  else
    let parsed := strtoll 10 token
    if parsed.rest = token then .readFormat "read".toList
    else if parsed.outOfRange then .readIntRange "read".toList token
    else .integer parsed.value

/-- The real number that was read, where `strtod` gives the value of the number a token begins
with. -/
def parseReal (strtod : Text → Option UInt64) (sawAny : Bool) (token : Text) : Delivered :=
  if ¬sawAny then .real 0
  else
    match strtod token with
    | none => .readFormat "read".toList
    | some bits => .real bits

/-- Hand over an answer, or end the program with a report. -/
def settle (c : IsoCall) (answer : Delivered) : Option Delivered × IsoCall :=
  (some answer, if answer.isReport then c.stop else c)

/-! ## Files -/

/-- Go on unless the program has ended; then nothing is delivered. -/
def orStop (c : IsoCall) (next : IsoCall → Option Delivered × IsoCall) :
    Option Delivered × IsoCall :=
  if c.stopped then (none, c) else next c

/-- `eof(f)`. -/
def plangEofFile (c : IsoCall) : Option Delivered × IsoCall :=
  c.abortIfClosed.orStop fun c =>
    if ¬c.file.readable.nonzero then (some (.flag true), c)
    else
      let primed := c.shared Call.ensurePrimed
      (some (.flag (decide (primed.file.buf = .eof))), primed)

/-- `eoln(f)`. -/
def plangEolnFile (c : IsoCall) : Option Delivered × IsoCall :=
  c.abortIfClosed.orStop fun c =>
    let primed := c.shared Call.ensurePrimed
    (some (.flag (decide (primed.file.buf = .eof ∨ primed.file.buf = .char '\n'))), primed)

/-- The window of a file; `check` is done after each character. -/
def windowScanner (check : IsoCall → IsoCall) : Lookahead IsoCall Window Char where
  look := fun c => c.file.buf
  next := fun c => (c.advance.1.getD '\xff', check { c with toCall := c.advance.2 })

/-- The window holds a character of a kind. -/
def holdsChar (kind : Char → Bool) : Window → Bool
  | .char c => kind c
  | .eof | .uninit => false

/-- The window is not at a line marker, nor at the end. -/
def inLine : Window → Bool
  | .char c => c != '\n'
  | .eof => false
  | .uninit => true

/-- How often the window can move before it shows the end. -/
def bound (c : IsoCall) : Nat := c.left + 1

/-- `readln(f)`. -/
def plangReadlnFile (c : IsoCall) : IsoCall :=
  c.abortIfClosed.andThen fun c =>
    let line := ((windowScanner id).takeWhile inLine c.bound (c.shared Call.ensurePrimed)).2
    let passed :=
      if line.file.buf = .char '\n' then line.shared fun call => call.advance.2 else line
    passed.shared Call.unloadComponent

/-- Skip blanks and line markers in front of a number. -/
def skipBlanksFile (c : IsoCall) : IsoCall :=
  let primed := if c.file.buf = .uninit then c.shared Call.prime else c
  primed.trapOnStreamError.andThen fun primed =>
    ((windowScanner trapOnStreamError).takeWhile (holdsChar isBlank) c.bound primed).2

/-- The number at the window, and whether there was anything at all before the end. -/
def scanNumberFile (c : IsoCall) (real : Bool) : Bool × Text × IsoCall :=
  let start := c.skipBlanksFile
  let (token, c) := takeNumber (windowScanner trapOnStreamError) holdsChar c.bound real start
  (decide (start.file.buf ≠ .eof), token, c)

/-- Read a number; what all readers of numbers share. -/
def readFileNumber (c : IsoCall) (real : Bool) (parse : Bool → Text → Delivered) :
    Option Delivered × IsoCall :=
  c.abortIfClosed.orStop fun c =>
    (c.trapOnWrongDirection false).orStop fun c =>
      let (sawAny, token, c) := c.scanNumberFile real
      c.orStop fun c => (c.shared Call.unloadComponent).settle (parse sawAny token)

/-- `read(f, v)` of an integer. -/
def plangReadFileI64 (c : IsoCall) : Option Delivered × IsoCall :=
  c.readFileNumber false parseInteger

/-- `read(f, v)` of a real number. -/
def plangReadFileF64 (strtod : Text → Option UInt64) (c : IsoCall) : Option Delivered × IsoCall :=
  c.readFileNumber true (parseReal strtod)

/-- `read(f, v)` of a character; a line marker is read as a space. -/
def plangReadFileChar (c : IsoCall) : Option Delivered × IsoCall :=
  c.abortIfClosed.orStop fun c =>
    (c.trapOnWrongDirection false).orStop fun c =>
      let primed := c.shared Call.ensurePrimed
      if primed.file.buf = .eof then (some (.char '\x00'), primed)
      else
        let (char, call) := primed.advance
        ({ primed with toCall := call }.trapOnStreamError).orStop fun c =>
          (some (.char (if char = some '\n' then ' ' else char.getD '\xff')),
            c.shared Call.unloadComponent)

/-! ## Standard input without a file -/

/-- The next character of standard input. -/
def plangInCh (c : IsoCall) : Option Char × IsoCall :=
  let (char, libc, _) := c.libc.fgetc .stdin
  (char, { c with libc })

/-- Give a character back. -/
def plangInUnget (c : IsoCall) : Option Char → IsoCall
  | none => c
  | some char => { c with libc := (c.libc.ungetc .stdin char).1 }

/-- The characters of standard input, the one in sight already taken from it. -/
def inputScanner : Lookahead (Option Char × IsoCall) (Option Char) Char where
  look := fun state => state.1
  next := fun state => (state.1.getD '\xff', state.2.plangInCh)

/-- How many characters there can be. -/
def inputBound (c : IsoCall) : Nat := c.libc.input.length + 1

/-- Skip blanks and line markers; the character behind them has been taken. -/
def skipBlanks (c : IsoCall) : Option Char × IsoCall :=
  (inputScanner.takeWhile (Option.any isBlank) c.inputBound c.plangInCh).2

/-- The next number, and whether there was anything at all before the end. -/
def scanNumber (c : IsoCall) (real : Bool) : Bool × Text × IsoCall :=
  let start := c.skipBlanks
  let (token, char, after) := takeNumber inputScanner Option.any c.inputBound real start
  (start.1.isSome, token, after.plangInUnget char)

/-- `read(v)` of an integer. -/
def plangReadI64 (c : IsoCall) : Option Delivered × IsoCall :=
  let (sawAny, token, c) := c.scanNumber false
  c.settle (parseInteger sawAny token)

/-- `read(v)` of a real number. -/
def plangReadF64 (strtod : Text → Option UInt64) (c : IsoCall) : Option Delivered × IsoCall :=
  let (sawAny, token, c) := c.scanNumber true
  c.settle (parseReal strtod sawAny token)

/-- `read(v)` of a character. -/
def plangReadChar (c : IsoCall) : Option Delivered × IsoCall :=
  let (char, c) := c.plangInCh
  (some (.char (char.getD '\x00')), c)

/-- `readln`. -/
def plangReadln (c : IsoCall) : IsoCall :=
  (inputScanner.takeWhile (Option.any fun char => char != '\n') c.inputBound c.plangInCh).2.2

/-- `eof`. -/
def plangEofStdin (c : IsoCall) : Option Delivered × IsoCall :=
  let (char, c) := c.plangInCh
  (some (.flag char.isNone), c.plangInUnget char)

/-- `eoln`. -/
def plangEolnStdin (c : IsoCall) : Option Delivered × IsoCall :=
  let (char, c) := c.plangInCh
  (some (.flag (decide (char = none ∨ char = some '\n'))), c.plangInUnget char)

end IsoCall

/-! ## Programs -/

/-- The requests of a program to standard input. -/
inductive InputKind where
  | char
  | integer
  | real
  | readln
  | eof
  | eoln
  deriving DecidableEq

/-- A request, with the file named or not. -/
structure InputOp where
  kind : InputKind
  named : Bool
  deriving DecidableEq

/-- The same request with the file named. -/
def InputOp.explicit (op : InputOp) : InputOp := { op with named := true }

/-- A program that reads standard input, and what it has been given. -/
structure Listener where
  call : IsoCall
  delivered : List Delivered := []

namespace Listener

variable (strtod : Text → Option UInt64)

/-- One request. -/
def perform (c : IsoCall) (op : InputOp) : Option Delivered × IsoCall :=
  match op.kind, op.named with
  | .char, false => c.plangReadChar
  | .char, true => c.plangReadFileChar
  | .integer, false => c.plangReadI64
  | .integer, true => c.plangReadFileI64
  | .real, false => c.plangReadF64 strtod
  | .real, true => c.plangReadFileF64 strtod
  | .readln, false => (none, c.plangReadln)
  | .readln, true => (none, c.plangReadlnFile)
  | .eof, false => c.plangEofStdin
  | .eof, true => c.plangEofFile
  | .eoln, false => c.plangEolnStdin
  | .eoln, true => c.plangEolnFile

/-- One request, unless the program has ended. -/
def step (listener : Listener) (op : InputOp) : Listener :=
  if listener.call.stopped then listener
  else
    let (answer, call) := perform strtod listener.call op
    { call, delivered := listener.delivered ++ answer.toList }

end Listener

end Runtime

end Plang
