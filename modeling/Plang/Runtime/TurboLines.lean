import Mathlib.Data.List.DropRight
import Plang.Library.TextLines
import Plang.Runtime.TextReading

/-!
# Reading a text line by line

A program of Turbo Pascal that reads a string and then `ReadLn`, as long as `Eof` says that there is
more, is given the lines of the text.  A line ends with a line feed, with a carriage return, or with
both; `Eof` and `Eoln` look ahead and consume nothing.
-/

namespace Plang

namespace Runtime

open Stdio TextLines

namespace TurboCall

/-- A line goes on. -/
abbrev inText : Char → Bool := unmarked '\r' '\n'

variable {c : TurboCall} {text : Text}

/-- `Eof` looks ahead. -/
theorem TextAhead.eof (reading : c.TextAhead text) :
    c.plangEofFileTurbo.1 = decide (text = []) ∧ c.plangEofFileTurbo.2.TextAhead text := by
  have readable := reading.ready.holds.readable
  have textual := reading.ready.textual
  obtain ⟨shows, primed⟩ := reading.ready.ensurePrimed
  have answer : c.plangEofFileTurbo =
      (decide (((c.shared Call.clearerr).shared Call.ensurePrimed).file.buf = .eof),
        (c.shared Call.clearerr).shared Call.ensurePrimed) := by
    rw [plangEofFileTurbo, if_neg (unsuppressed reading.clear), reading.ifReadyOr,
      if_neg (not_not.mpr readable), if_neg (Int.not_lt.mpr textual)]
  rw [answer, shows.buf]
  exact ⟨decide_eq_decide.mpr windowOf_eq_eof, primed.reading⟩

/-- `Eoln` looks ahead; it is true where nothing of the line is left. -/
theorem TextAhead.eoln (reading : c.TextAhead text) :
    c.plangEolnFileTurbo.1 = (text.takeWhile inText).isEmpty ∧
      c.plangEolnFileTurbo.2.TextAhead text := by
  obtain ⟨shows, primed⟩ := reading.ready.ensurePrimed
  have answer : c.plangEolnFileTurbo =
      (Window.endsLine ((c.shared Call.clearerr).shared Call.ensurePrimed).file.buf,
        (c.shared Call.clearerr).shared Call.ensurePrimed) := by
    rw [plangEolnFileTurbo, if_neg (unsuppressed reading.clear), reading.ifReadyOr]
  rw [answer, shows.buf]
  refine ⟨?_, primed.reading⟩
  cases text with
  | nil => rfl
  | cons d rest =>
      have kept : inText d = (d != '\n' && d != '\r') := rfl
      rw [IsoCall.windowOf, Window.endsLine, List.takeWhile_cons, kept]
      cases feed : d == '\n' <;> cases return_ : d == '\r' <;> simp [bne, feed, return_]

theorem inLine_char (d : Char) : Window.inLine (.char d) = inText d := rfl

/-- Reading a string takes what is left of the line, and leaves the marker. -/
theorem TextAhead.plangSstrReadFile (reading : c.TextAhead text) (cap : Int) :
    (c.plangSstrReadFile cap).1 = (text.takeWhile inText).take (min cap 255).toNat ∧
      (c.plangSstrReadFile cap).2.TextAhead (text.dropWhile inText) := by
  obtain ⟨shows, primed⟩ := reading.ready.ensurePrimed
  obtain ⟨call, read, after, moved⟩ :=
    @readWhile_eq _ _ Window.inLine inText checkRead rfl inLine_char checkRead_eq shows
  have answer : c.plangSstrReadFile cap =
      ((text.takeWhile inText).take (if cap < 255 then cap else 255).toNat,
        ((c.shared Call.clearerr).shared Call.ensurePrimed).shared fun _ => call) := by
    rw [TurboCall.plangSstrReadFile, reading.ifReadyOr, readLine,
      reading.ready.tpTrapOnWrongDirection, read]
  have capacity : (if cap < 255 then cap else 255) = min cap 255 := by
    rw [Int.min_def]
    split <;> split <;> omega
  rw [answer, capacity]
  exact ⟨rfl, (primed.shows after moved).reading⟩

/-- `ReadLn` passes what is left of the line and its marker. -/
theorem TextAhead.plangReadlnFileTurbo (reading : c.TextAhead text) :
    c.plangReadlnFileTurbo.TextAhead (behindMarker '\r' '\n' (text.dropWhile inText)) := by
  obtain ⟨shows, primed⟩ := reading.ready.ensurePrimed
  obtain ⟨call, read, after, moved⟩ :=
    @readWhile_eq _ _ Window.inLine inText id rfl inLine_char (fun _ => rfl) shows
  rw [TurboCall.plangReadlnFileTurbo, reading.ifReady]
  simp only [read]
  have line := primed.shows after moved
  have window := after.buf
  change (((c.shared Call.clearerr).shared Call.ensurePrimed).shared fun _ => call).file.buf =
    _ at window
  generalize ((c.shared Call.clearerr).shared Call.ensurePrimed).shared (fun _ => call) = now
    at line window ⊢
  refine Ready.reading (Ready.unloadComponent ?_)
  rw [window]
  have ended := List.head?_dropWhile_not inText text
  cases rest : text.dropWhile inText with
  | nil =>
      rw [rest] at line
      exact line
  | cons d more =>
      rw [rest] at line ended
      obtain ⟨passed, shown⟩ := line.pass
      by_cases return_ : d = '\r'
      · subst return_
        rw [IsoCall.windowOf, if_pos rfl, shown, List.tail_cons]
        cases more with
        | nil => exact passed
        | cons e further =>
            by_cases feed : e = '\n'
            · subst feed
              rw [IsoCall.windowOf, if_pos rfl, behindMarker_pair]
              exact passed.pass.1
            · rw [behindMarker_alone (by simpa using feed), IsoCall.windowOf,
                if_neg (by simpa using feed)]
              exact passed
      · rw [behindMarker_of_ne return_, IsoCall.windowOf, if_neg (by simpa using return_)]
        by_cases feed : d = '\n'
        · subst feed
          rw [if_pos rfl]
          exact passed
        · simp [inText, unmarked, feed, return_] at ended

/-! ### The loop -/

/-- `while not Eof(f) do begin Read(f, s); ReadLn(f) end`, and the strings that are read. -/
def readLines (cap : Int) : Nat → TurboCall → List Text × TurboCall
  | 0, c => ([], c)
  | fuel + 1, c =>
      let (eof, c) := c.plangEofFileTurbo
      if eof then ([], c)
      else
        let (line, c) := c.plangSstrReadFile cap
        let (more, after) := readLines cap fuel c.plangReadlnFileTurbo
        (line :: more, after)

/-- The lines of a text. -/
def linesOf (text : Text) : List Text := lines '\r' '\n' text

theorem linesOf_eq (some_ : text ≠ []) :
    linesOf text = text.takeWhile inText ::
      linesOf (behindMarker '\r' '\n' (text.dropWhile inText)) :=
  lines_eq some_

theorem readLines_eq (reading : c.TextAhead text) (cap : Int) {fuel : Nat}
    (enough : text.length < fuel) :
    (readLines cap fuel c).1 = (linesOf text).map (List.take (min cap 255).toNat) ∧
      (readLines cap fuel c).2.TextAhead [] := by
  induction fuel generalizing c text with
  | zero => exact absurd enough (Nat.not_lt_zero _)
  | succ fuel induction =>
      obtain ⟨eof, ahead⟩ := reading.eof
      rw [readLines]
      simp only [eof]
      by_cases empty : text = []
      · subst empty
        rw [if_pos (decide_eq_true rfl)]
        exact ⟨rfl, ahead⟩
      · obtain ⟨line, left⟩ := ahead.plangSstrReadFile cap
        have next := left.plangReadlnFileTurbo
        rw [List.dropWhile_idempotent] at next
        have shorter : (behindMarker '\r' '\n' (text.dropWhile inText)).length < fuel :=
          Nat.lt_of_lt_of_le (length_behindLine_lt empty) (Nat.le_of_lt_succ enough)
        obtain ⟨more, final⟩ := induction next shorter
        rw [if_neg (by simpa using empty), line, more, linesOf_eq empty]
        exact ⟨rfl, final⟩

/-- A text is read line by line, each cut off at the capacity of the string; looking for the end
of the file or the line leaves the text as it is. -/
structure ReadByLines (c : TurboCall) (text : Text) : Prop where
  delivered : ∀ (cap : Int) (fuel : Nat), text.length < fuel →
    (readLines cap fuel c).1 = (linesOf text).map (List.take (min cap 255).toNat)
  ended : ∀ (cap : Int) (fuel : Nat), text.length < fuel →
    (readLines cap fuel c).2.plangEofFileTurbo.1 = true
  clear : ∀ (cap : Int) (fuel : Nat), text.length < fuel → (readLines cap fuel c).2.inOutRes = 0
  eof : c.plangEofFileTurbo.1 = decide (text = []) ∧ c.plangEofFileTurbo.2.TextAhead text
  eoln : c.plangEolnFileTurbo.1 = (text.takeWhile inText).isEmpty ∧
    c.plangEolnFileTurbo.2.TextAhead text

/-- Every text that is read is read line by line. -/
theorem reads_by_lines (reading : c.TextAhead text) : ReadByLines c text where
  delivered := fun cap _ enough => (readLines_eq reading cap enough).1
  ended := fun cap _ enough => (readLines_eq reading cap enough).2.eof.1
  clear := fun cap _ enough => (readLines_eq reading cap enough).2.clear
  eof := reading.eof
  eoln := reading.eoln

/-- Two lines of text, the first one ended as on other systems. -/
def twoLines : TurboCall where
  libc := { entries := fun _ => .file 0, contents := fun _ => "ab\r\nc".toList }
  file := { name := ['f'], mode := .fmClosed }
  reals := { format := fun _ _ _ _ => [], fixed := fun _ _ _ => [], parse := fun _ => none }

theorem reads_by_lines_twoLines :
    ReadByLines twoLines.plangTpReset "ab\r\nc".toList ∧
      (readLines 1 6 twoLines.plangTpReset).1 = [['a'], ['c']] :=
  have read := reads_by_lines
    (reading_reset (c := twoLines) rfl (by decide) (by decide) rfl rfl)
  ⟨read, read.delivered 1 6 (by decide)⟩

end TurboCall

end Runtime

end Plang
