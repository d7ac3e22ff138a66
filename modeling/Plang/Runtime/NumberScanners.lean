import Plang.Runtime.TextReading

/-!
# The two scanners of numbers

A number is read from standard input with each character taken and the last one given back, and from
a text file through its window.  On the same bytes the two find the same token, deliver the same or
report the same, and leave the same bytes.
-/

namespace Plang

namespace Runtime

open Stdio

namespace IsoCall

/-! ### Unsigned integers -/

/-- The unsigned integer that was read. -/
def parseUnsigned (sawAny : Bool) (token : Text) : Delivered :=
  if ¬sawAny then .integer 0
  else if token.head? = some '-' then .readFormat "read".toList
  else
    let parsed := strtoull 10 token
    if parsed.rest = token then .readFormat "read".toList
    else if parsed.outOfRange then .readIntRange "read".toList token
    else .integer parsed.value

/-- `read(v)` of an unsigned integer of 64 bits. -/
def plangReadU64 (c : IsoCall) : Option Delivered × IsoCall :=
  let (sawAny, token, c) := c.scanNumber false
  c.settle (parseUnsigned sawAny token)

/-- `read(f, v)` of an unsigned integer of 64 bits. -/
def plangReadFileU64 (c : IsoCall) : Option Delivered × IsoCall :=
  c.readFileNumber false parseUnsigned

/-! ### Side by side -/

/-- These bytes are unread on standard input. -/
def withInput (s : IsoCall) (input : Text) : IsoCall := { s with libc := { s.libc with input } }

/-- The window of the file shows what the scanner of standard input has taken last, and behind it
stands what that one has left. -/
structure AbreastAt (input : Text) (s : IsoCall) (state : Option Char × IsoCall) (c : IsoCall) :
    Prop where
  bare : state.2 = s.withInput input
  shows : c.toCall.Shows (state.1.toList ++ input)
  ended : state.1 = none → input = []
  running : c.stopped = false

/-- Two scanners are abreast. -/
def Abreast (s : IsoCall) (state : Option Char × IsoCall) (c : IsoCall) : Prop :=
  ∃ input, AbreastAt input s state c

theorem trapOnStreamError_eq {c : IsoCall} {text : Text} (ahead : c.toCall.Ahead text) :
    c.trapOnStreamError = c := by
  rw [trapOnStreamError, ahead.ferror, if_neg Bool.false_ne_true]

theorem plangInCh_withInput (s : IsoCall) (input : Text) :
    (s.withInput input).plangInCh = (input.head?, s.withInput input.tail) :=
  plangInCh_eq _

theorem plangInUnget_withInput (s : IsoCall) (input : Text) (char : Option Char) :
    (s.withInput input).plangInUnget char = s.withInput (char.toList ++ input) := by
  cases char <;> rfl

variable {s : IsoCall}

theorem simulates_abreast (kind : Char → Bool) :
    Lookahead.Simulates inputScanner (windowScanner trapOnStreamError) (Abreast s)
      (Option.any kind) (holdsChar kind) where
  look := by
    rintro ⟨taken, _⟩ c ⟨input, abreast⟩
    have buf := abreast.shows.buf
    cases taken with
    | none =>
        obtain rfl := abreast.ended rfl
        exact (congrArg (holdsChar kind) buf).symm
    | some char => exact (congrArg (holdsChar kind) buf).symm
  char := by
    rintro ⟨taken, _⟩ c ⟨input, abreast⟩ wanted
    cases taken with
    | none => cases wanted
    | some char =>
        obtain ⟨read, -, -⟩ := abreast.shows.toAhead.advance
        exact (congrArg (Option.getD · '\xff') read).symm
  next := by
    rintro ⟨taken, _⟩ c ⟨input, abreast⟩ wanted
    cases taken with
    | none => cases wanted
    | some char =>
        obtain ⟨-, shows, -⟩ := abreast.shows.toAhead.advance
        obtain rfl := abreast.bare
        have checked : ((windowScanner trapOnStreamError).next c).2 =
            { c with toCall := c.advance.2 } := trapOnStreamError_eq shows.toAhead
        have moved : (inputScanner.next (some char, s.withInput input)).2 =
            (input.head?, s.withInput input.tail) := plangInCh_withInput s input
        rw [checked, moved]
        refine ⟨input.tail, rfl, ?_, ?_, abreast.running⟩
        · cases input <;> exact shows
        · cases input with
          | nil => exact fun _ => rfl
          | cons => exact fun impossible => nomatch impossible

theorem abreast_plangInCh {c : IsoCall} {text : Text} (shows : c.toCall.Shows text)
    (running : c.stopped = false) : Abreast s (s.withInput text).plangInCh c := by
  rw [plangInCh_withInput]
  refine ⟨text.tail, rfl, ?_, ?_, running⟩
  · cases text <;> exact shows
  · cases text with
    | nil => exact fun _ => rfl
    | cons => exact fun impossible => nomatch impossible

theorem Abreast.isSome {state : Option Char × IsoCall} {c : IsoCall} (abreast : Abreast s state c) :
    state.1.isSome = decide (c.file.buf ≠ .eof) := by
  obtain ⟨input, -, shows, ended, -⟩ := abreast
  obtain ⟨_ | char, _⟩ := state
  · rw [shows.buf, ended rfl]
    rfl
  · rw [shows.buf]
    rfl

variable {c : IsoCall} {text : Text}

/-- Blanks and line markers are skipped side by side. -/
theorem abreast_skipBlanks (holds : c.toCall.Holds text) (running : c.stopped = false) :
    Abreast s (s.withInput text).skipBlanks c.skipBlanksFile := by
  obtain ⟨primed, shows, -, filled⟩ := holds.primed
  have start : (if c.file.buf = .uninit then c.shared Call.prime else c) =
      c.shared fun _ => primed := by
    rw [← filled]
    split <;> rfl
  have quiet : (c.shared fun _ => primed).trapOnStreamError = c.shared fun _ => primed :=
    trapOnStreamError_eq shows.toAhead
  have still : (c.shared fun _ => primed).stopped = false := running
  have blanks : c.skipBlanksFile =
      ((windowScanner trapOnStreamError).takeWhile (holdsChar isBlank) c.bound
        (c.shared fun _ => primed)).2 := by
    rw [skipBlanksFile, start]
    simp only [quiet]
    rw [andThen, still, if_neg Bool.false_ne_true]
  have bound : c.bound = text.length + 1 := congrArg (· + 1) holds.left
  rw [blanks, bound]
  exact (Lookahead.Agree.takeWhile (simulates_abreast isBlank) (text.length + 1)
    (abreast_plangInCh shows still)).2

/-- The two scanners find the same number. -/
theorem scanNumber_abreast (holds : c.toCall.Holds text) (running : c.stopped = false)
    (real : Bool) : ∃ sawAny token rest after,
      (s.withInput text).scanNumber real = (sawAny, token, s.withInput rest) ∧
      c.scanNumberFile real = (sawAny, token, after) ∧
      after.toCall.Shows rest ∧ after.stopped = false := by
  have blanks := @abreast_skipBlanks s c text holds running
  have bound : c.bound = text.length + 1 := congrArg (· + 1) holds.left
  obtain ⟨token, rest, bare, shows, -, still⟩ := agree_takeNumber real
    (fun kind _ => @simulates_abreast s kind) (text.length + 1) blanks
  have scan : (s.withInput text).scanNumber real =
      ((s.withInput text).skipBlanks.1.isSome,
        (takeNumber inputScanner Option.any (text.length + 1) real
          (s.withInput text).skipBlanks).1,
        (takeNumber inputScanner Option.any (text.length + 1) real
          (s.withInput text).skipBlanks).2.2.plangInUnget
          (takeNumber inputScanner Option.any (text.length + 1) real
            (s.withInput text).skipBlanks).2.1) := rfl
  have scanFile : c.scanNumberFile real =
      (decide (c.skipBlanksFile.file.buf ≠ .eof),
        takeNumber (windowScanner trapOnStreamError) holdsChar (text.length + 1) real
          c.skipBlanksFile) := by
    rw [scanNumberFile, bound]
  rw [bare, plangInUnget_withInput, blanks.isSome, token] at scan
  exact ⟨_, _, _, _, scan, scanFile, shows, still⟩

/-- Readers of numbers with and without a file deliver the same or report the same, and leave the
same. -/
structure ReadAlike (bare file : Option Delivered × IsoCall) : Prop where
  answer : bare.1 = file.1
  delivered : bare.1.isSome
  ended : bare.2.stopped = file.2.stopped
  unread : file.2.toCall.Ahead bare.2.libc.input

/-- Standard input and a file with the same unread bytes give the same numbers. -/
structure NumbersAlike (bare file : IsoCall) : Prop where
  scans : ∀ real, (bare.scanNumber real).1 = (file.scanNumberFile real).1 ∧
    (bare.scanNumber real).2.1 = (file.scanNumberFile real).2.1 ∧
    (file.scanNumberFile real).2.2.toCall.Ahead (bare.scanNumber real).2.2.libc.input
  integers : ReadAlike bare.plangReadI64 file.plangReadFileI64
  unsigned : ReadAlike bare.plangReadU64 file.plangReadFileU64
  reals : ∀ strtod, ReadAlike (bare.plangReadF64 strtod) (file.plangReadFileF64 strtod)

theorem abortIfClosed_eq (holds : c.toCall.Holds text) : c.abortIfClosed = c := by
  obtain ⟨stream, open_, -⟩ := holds.stream
  have opened : c.file.fp.isNone = false := by rw [open_]; rfl
  rw [abortIfClosed, opened, if_neg Bool.false_ne_true, shared, holds.toAhead.clearerr]

theorem trapOnWrongDirection_eq (holds : c.toCall.Holds text) :
    c.trapOnWrongDirection false = c := by
  have readable := holds.readable
  rw [trapOnWrongDirection]
  cases direction : c.file.readable with
  | write => rw [direction] at readable; cases readable
  | read => simp
  | both => simp

theorem orStop_eq (running : c.stopped = false) (next : IsoCall → Option Delivered × IsoCall) :
    c.orStop next = next c := by
  rw [orStop, running, if_neg Bool.false_ne_true]

theorem stopped_settle (c : IsoCall) (answer : Delivered) :
    (c.settle answer).2.stopped = (answer.isReport || c.stopped) := by
  rw [settle]
  cases answer.isReport <;> rfl

theorem toCall_settle (c : IsoCall) (answer : Delivered) :
    (c.settle answer).2.toCall = c.toCall := by
  rw [settle]
  cases answer.isReport <;> rfl

/-- Whatever is made of the token, it is delivered alike. -/
theorem readAlike_number (holds : c.toCall.Holds text) (running : c.stopped = false)
    (bare_running : s.stopped = false) (real : Bool) (parse : Bool → Text → Delivered) :
    ReadAlike
      (((s.withInput text).scanNumber real).2.2.settle
        (parse ((s.withInput text).scanNumber real).1 ((s.withInput text).scanNumber real).2.1))
      (c.readFileNumber real parse) := by
  obtain ⟨sawAny, token, rest, after, scan, scanFile, shows, still⟩ :=
    @scanNumber_abreast s c text holds running real
  have file : c.readFileNumber real parse =
      (after.shared Call.unloadComponent).settle (parse sawAny token) := by
    rw [readFileNumber, abortIfClosed_eq holds, orStop_eq running, trapOnWrongDirection_eq holds,
      orStop_eq running]
    simp only [scanFile]
    rw [orStop_eq still]
  rw [scan, file]
  refine ⟨rfl, rfl, ?_, ?_⟩
  · rw [stopped_settle, stopped_settle]
    exact congrArg _ (bare_running.trans still.symm)
  · rw [toCall_settle, toCall_settle]
    exact ⟨shows.stream, shows.readable⟩

/-- The two scanners of numbers agree on the same bytes. -/
theorem numbers_alike (s : IsoCall) {c : IsoCall} {text : Text} (running : c.stopped = false)
    (bare_running : s.stopped = false) (holds : c.toCall.Holds text) :
    NumbersAlike (s.withInput text) c where
  scans real := by
    obtain ⟨sawAny, token, rest, after, scan, scanFile, shows, -⟩ :=
      @scanNumber_abreast s c text holds running real
    rw [scan, scanFile]
    exact ⟨rfl, rfl, shows.toAhead⟩
  integers := readAlike_number holds running bare_running false parseInteger
  unsigned := readAlike_number holds running bare_running false parseUnsigned
  reals strtod := readAlike_number holds running bare_running true (parseReal strtod)

/-- A text file that holds a real number without digits in its exponent. -/
def openedNumber : IsoCall :=
  { IsoCall.started with
    libc := { contents := fun _ => " -1.5e+x".toList }
    file := { fp := some { target := .file 0, canRead := true, canWrite := false }, readable := .read } }

theorem numbers_alike_openedNumber :
    NumbersAlike (IsoCall.started.withInput " -1.5e+x".toList) openedNumber :=
  numbers_alike IsoCall.started rfl rfl ⟨⟨⟨_, rfl, rfl, rfl, rfl⟩, rfl⟩, .inl rfl⟩

end IsoCall

end Runtime

end Plang
