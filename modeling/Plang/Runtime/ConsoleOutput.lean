import Plang.Runtime.TurboLatch

/-!
# What the cursor's tracker is told

The tracked cursor follows the bytes on standard output as long as the writers report them.  Only
three of the writers do.
-/

namespace Plang

namespace Runtime

open Stdio

/-- A text in a field of a width that is narrowed first; without a width to speak of nothing is
written, unless the text may not be cut off. -/
def paddedText (text : Text) (width : Int) (noTrunc : Bool) : Text :=
  if !noTrunc && wrapWidthTP width == 0 then []
  else TurboCall.fieldText text (wrapWidthTP width) noTrunc

/-- The text a writer hands to the stream. -/
def Writing.text (reals : RealText) : Writing → Text
  | .writeln => ['\n']
  | .char value => [value]
  | .str value => cString (value.getD [])
  | .i64 value => decimal value
  | .u64 value => decimal value
  | .bool value upper => TurboCall.booleanText value upper
  | .f64E value width upper => reals.format value width upper false
  | .f32E value width upper => reals.format value width upper true
  | .f64 value upper => reals.format value PlangRealWidth upper false
  | .f32 value upper => reals.format value PlangRealWidth upper true
  | .i64W value width => padLeft (checkedWidth (wrapWidthTP width)) (decimal value)
  | .u64W value width => padLeft (checkedWidth (wrapWidthTP width)) (decimal value)
  | .f64F value width decimals upper =>
      if wrapWidthTP decimals < 0 then reals.format value (wrapWidthTP width) upper false
      else reals.fixed value (wrapWidthTP width) (wrapWidthTP decimals)
  | .boolW value width upper noTrunc => paddedText (TurboCall.booleanText value upper) width noTrunc
  | .strW value width noTrunc => paddedText (cString (value.getD [])) width noTrunc
  | .charW value width alwaysWrite =>
      if wrapWidthTP width = 0 ∧ ¬alwaysWrite then []
      else if wrapWidthTP width < 0 then [value]
      else padLeft (checkedWidth (wrapWidthTP width)) [value]
  | .strFixed value => value
  | .sstr value => value
  | .strFixedW value width => paddedText value width false
  | .sstrW value width => paddedText value width false
  | .binary bytes => bytes

/-- The writers that report to the tracker. -/
def Writing.reports : Writing → Bool
  | .writeln | .char _ | .str _ => true
  | _ => false

namespace TurboCall

variable {c : TurboCall}

/-- The text that standard output has been given, and the tracked cursor. -/
def console (c : TurboCall) : Text × CrtCursor := (c.libc.output, c.cursor)

/-- Standard output takes what is written to the file. -/
def emits (c : TurboCall) : Bool := c.isStdout && c.libc.outputFault.isNone

/-- The console after a text; `told` says whether the tracker is told. -/
def consoleAfter (c : TurboCall) (text : Text) (told : Bool) : Text × CrtCursor :=
  (c.libc.output ++ (if c.emits then text else []),
    if told && c.isStdout then c.cursor.plangCrtTrackOutput text else c.cursor)

@[simp] theorem console_setInOutResIfClear (code : Int) :
    (c.setInOutResIfClear code).console = c.console := by
  rw [setInOutResIfClear]
  split <;> rfl

@[simp] theorem console_tpTrapOnStreamError (wantWrite : Bool) :
    (c.tpTrapOnStreamError wantWrite).console = c.console := by
  rw [tpTrapOnStreamError]
  split
  · split <;> exact console_setInOutResIfClear _
  · rfl

theorem toCall_setInOutResIfClear (code : Int) :
    (c.setInOutResIfClear code).toCall = c.toCall ∧
      (c.setInOutResIfClear code).cursor = c.cursor := by
  rw [setInOutResIfClear]
  split <;> exact ⟨rfl, rfl⟩

theorem toCall_tpTrapOnWrongDirection (wantWrite : Bool) :
    (c.tpTrapOnWrongDirection wantWrite).toCall = c.toCall ∧
      (c.tpTrapOnWrongDirection wantWrite).cursor = c.cursor := by
  rw [tpTrapOnWrongDirection]
  split
  · exact ⟨rfl, rfl⟩
  · split
    · exact toCall_setInOutResIfClear _
    · exact ⟨rfl, rfl⟩

/-- Writing changes standard output only where the stream is attached to it. -/
theorem output_fwrite (libc : Libc) (stream : Stream) (text : Text) :
    (libc.fwrite stream text).2.1.output =
        libc.output ++ (if stream.isStdout && libc.outputFault.isNone then text else []) ∧
      (libc.fwrite stream text).2.2.isStdout = stream.isStdout := by
  rcases target : stream.target with _ | _ | _ | inode
  · simp [Libc.fwrite, Stream.isStdout, target]
  · rcases fault : libc.outputFault with _ | errno <;>
      simp [Libc.fwrite, Stream.isStdout, target, fault]
  · simp [Libc.fwrite, Stream.isStdout, target]
  · rcases writable : stream.canWrite
    · simp [Libc.fwrite, Stream.isStdout, target, writable]
    · rcases fault : libc.faults inode with _ | errno <;>
        simp [Libc.fwrite, Stream.isStdout, target, writable, fault]

theorem console_put (text : Text) : (c.put text).console = c.consoleAfter text false ∧
    (c.put text).isStdout = c.isStdout ∧ (c.put text).cursor = c.cursor := by
  rcases fp : c.file.fp with _ | stream
  · simp [put, shared, Call.fwrite, Call.onStream, fp, console, consoleAfter, emits, Call.isStdout]
  · obtain ⟨output, attached⟩ := output_fwrite c.libc stream text
    simp [put, shared, Call.fwrite, Call.onStream, fp, console, consoleAfter, emits, Call.isStdout,
      output, attached]

theorem console_putChecked (text : Text) :
    (c.putChecked text).console = c.consoleAfter text false := by
  obtain ⟨same_call, same_cursor⟩ := toCall_tpTrapOnWrongDirection (c := c) true
  rw [putChecked, console_tpTrapOnStreamError, (console_put text).1]
  simp [consoleAfter, emits, same_call, same_cursor]

theorem console_putTracked (text : Text) :
    (c.putTracked text).console = c.consoleAfter text true := by
  obtain ⟨same_call, same_cursor⟩ := toCall_tpTrapOnWrongDirection (c := c) true
  obtain ⟨written, attached, cursor⟩ := console_put (c := c.tpTrapOnWrongDirection true) text
  have output := congrArg Prod.fst written
  simp only [console, consoleAfter, emits, same_call] at output
  rw [putTracked, console_tpTrapOnStreamError, track, attached, cursor, same_call, same_cursor]
  by_cases stdout : c.isStdout <;> simp [consoleAfter, console, emits, stdout, output, cursor,
    same_cursor]

@[simp] theorem consoleAfter_nil (told : Bool) : c.consoleAfter [] told = c.console := by
  simp [consoleAfter, console]

/-- A file that is not open is not on the console. -/
theorem consoleAfter_of_closed (closed : c.file.fp = none) (text : Text) (told : Bool) :
    c.consoleAfter text told = c.console := by
  simp [consoleAfter, console, emits, Call.isStdout, closed]

theorem consoleAfter_clearerr (text : Text) (told : Bool) :
    (c.shared Call.clearerr).consoleAfter text told = c.consoleAfter text told := by
  rcases fp : c.file.fp with _ | stream <;>
    simp [consoleAfter, emits, shared, Call.clearerr, Call.onStream, Call.isStdout,
      Stream.isStdout, fp]

/-- What a writer does that asks first whether the file can be used. -/
theorem console_ifReady {body : TurboCall → TurboCall} {text : Text} {told : Bool}
    (writes : ∀ ready : TurboCall, ready.reals = c.reals → ready.inOutRes = 0 →
      (body ready).console = ready.consoleAfter text told) :
    (c.ifReady body).console =
      if c.inOutRes = 0 then c.consoleAfter text told else c.console := by
  by_cases clear : c.inOutRes = 0
  · rw [if_pos clear]
    rcases fp : c.file.fp with _ | stream
    · simp [ifReady, tpFileReady, unsuppressed clear, fp, consoleAfter_of_closed fp]
    · have written := writes (c.shared Call.clearerr) rfl clear
      rw [consoleAfter_clearerr] at written
      simpa [ifReady, tpFileReady, unsuppressed clear, fp] using written
  · rw [if_neg clear, ifReady_of_pending clear]

theorem console_writeFile (text : Text) :
    (c.writeFile text).console = if c.inOutRes = 0 then c.consoleAfter text false else c.console :=
  console_ifReady fun _ _ _ => console_putChecked text

theorem console_writeFileTracked (text : Text) :
    (c.writeFileTracked text).console =
      if c.inOutRes = 0 then c.consoleAfter text true else c.console :=
  console_ifReady fun _ _ _ => console_putTracked text

theorem console_tpWritePadded (text : Text) (width : Int) (noTrunc : Bool) :
    (c.tpWritePadded text width noTrunc).console =
      c.consoleAfter (paddedText text width noTrunc) false := by
  rw [tpWritePadded, paddedText]
  split
  · exact (consoleAfter_nil false).symm
  · exact console_putChecked _

theorem console_putNonempty (text : Text) :
    (c.putNonempty text).console = c.consoleAfter text false := by
  rw [putNonempty]
  split <;> rename_i empty
  · rw [List.isEmpty_iff.mp empty, consoleAfter_nil]
  · exact console_putChecked text

/-- The cursor moves with the text if the tracker is told of what standard output takes, and of no
more; otherwise the text has to leave it where it is. -/
theorem consoleAfter_follows_iff (text : Text) (told : Bool) :
    (c.consoleAfter text told).2 = c.cursor.plangCrtTrackOutput (if c.emits then text else []) ↔
      (c.isStdout → told = c.libc.outputFault.isNone ∨
        c.cursor.plangCrtTrackOutput text = c.cursor) := by
  by_cases stdout : c.isStdout
  · cases told <;> cases taken : c.libc.outputFault.isNone <;>
      simp [consoleAfter, emits, stdout, taken, eq_comm]
  · simp [consoleAfter, emits, stdout]

/-- The effect of a writer on the console. -/
theorem console_write (writing : Writing) :
    (c.write writing).console =
      if c.inOutRes = 0 then c.consoleAfter (writing.text c.reals) writing.reports
      else c.console := by
  cases writing with
  | writeln => exact console_writeFileTracked _
  | char value => exact console_writeFileTracked _
  | str value => exact console_writeFileTracked _
  | i64 value => exact console_writeFile _
  | u64 value => exact console_writeFile _
  | bool value upper => exact console_writeFile _
  | f64E value width upper => exact console_writeFile _
  | f32E value width upper => exact console_writeFile _
  | f64 value upper => exact console_writeFile _
  | f32 value upper => exact console_writeFile _
  | i64W value width => exact console_writeFile _
  | u64W value width => exact console_writeFile _
  | f64F value width decimals upper =>
      refine console_ifReady fun ready reals clear => ?_
      rw [Writing.text, ← reals]
      split
      · exact (console_writeFile _).trans (if_pos clear)
      · exact console_putChecked _
  | boolW value width upper noTrunc => exact console_ifReady fun _ _ _ => console_tpWritePadded ..
  | strW value width noTrunc => exact console_ifReady fun _ _ _ => console_tpWritePadded ..
  | charW value width alwaysWrite =>
      refine console_ifReady fun ready _ _ => ?_
      rw [Writing.text]
      split
      · exact (consoleAfter_nil _).symm
      · split <;> exact console_putChecked _
  | strFixed value => exact console_ifReady fun _ _ _ => console_putNonempty value
  | sstr value => exact console_ifReady fun _ _ _ => console_putNonempty value
  | strFixedW value width => exact console_ifReady fun _ _ _ => console_tpWritePadded ..
  | sstrW value width => exact console_ifReady fun _ _ _ => console_tpWritePadded ..
  | binary bytes => exact console_ifReady fun _ _ _ => console_putChecked bytes

end TurboCall

namespace TurboState

variable {V : Type*} [DecidableEq V]

/-- A program writes to one of its files. -/
def write (state : TurboState V) (output : V × Writing) : TurboState V :=
  state.perform output.1 (.write output.2)

/-- The tracked cursor is where the bytes that standard output was given since the start have moved
it. -/
def CursorFollows (start state : TurboState V) : Prop :=
  ∃ emitted, state.libc.output = start.libc.output ++ emitted ∧
    state.cursor = start.cursor.plangCrtTrackOutput emitted

/-- A writer that writes to standard output reports to the tracker, unless standard output does not
take its text; or its text leaves the cursor where it is. -/
def Reported (state : TurboState V) (output : V × Writing) : Prop :=
  state.inOutRes = 0 → (state.enter output.1).isStdout →
    (output.2.reports = state.libc.outputFault.isNone) ∨
      state.cursor.plangCrtTrackOutput (output.2.text state.reals) = state.cursor

/-- The console after a write. -/
theorem console_write (state : TurboState V) (output : V × Writing) :
    ((state.write output).libc.output, (state.write output).cursor) =
      if state.inOutRes = 0 then
        (state.enter output.1).consoleAfter (output.2.text state.reals) output.2.reports
      else (state.libc.output, state.cursor) :=
  TurboCall.console_write (c := state.enter output.1) output.2

omit [DecidableEq V] in
/-- Bytes that are given to standard output have to move the cursor. -/
theorem cursorFollows_append_iff {start state now : TurboState V} {added : Text}
    (follows : CursorFollows start state) (given : now.libc.output = state.libc.output ++ added) :
    CursorFollows start now ↔ now.cursor = state.cursor.plangCrtTrackOutput added := by
  obtain ⟨emitted, before, cursor⟩ := follows
  rw [before, List.append_assoc] at given
  rw [cursor, ← CrtCursor.plangCrtTrackOutput_append]
  constructor
  · rintro ⟨all, output, tracked⟩
    rw [given] at output
    rw [tracked, List.append_cancel_left output]
  · exact fun tracked => ⟨emitted ++ added, given, tracked⟩

/-- One write keeps the cursor where the bytes have moved it if and only if it reports them. -/
theorem cursorFollows_write_iff (start state : TurboState V) (output : V × Writing)
    (follows : CursorFollows start state) :
    CursorFollows start (state.write output) ↔ Reported state output := by
  have console := console_write state output
  by_cases clear : state.inOutRes = 0
  · rw [if_pos clear] at console
    obtain ⟨given, cursor⟩ := Prod.ext_iff.mp console
    rw [cursorFollows_append_iff follows given]
    dsimp only at cursor
    rw [cursor, Reported, forall_prop_of_true clear]
    exact TurboCall.consoleAfter_follows_iff (c := state.enter output.1) _ _
  · rw [if_neg clear] at console
    obtain ⟨given, cursor⟩ := Prod.ext_iff.mp console
    refine iff_of_true ?_ fun none_pending => absurd none_pending clear
    exact (cursorFollows_append_iff follows (given.trans (List.append_nil _).symm)).mpr cursor

/-- The tracked cursor always is where the bytes on standard output have moved it if and only if
all of them are reported. -/
theorem cursorFollows_always_iff (start : TurboState V) (outputs : List (V × Writing)) :
    Runs.Always write (CursorFollows start) start outputs ↔
      Runs.Along write Reported start outputs :=
  Runs.always_iff_along (cursorFollows_write_iff start) ⟨[], by simp⟩

/-- A program whose only file variable is standard output. -/
def consoleOnly : TurboState Unit :=
  { nothingThere with files := fun _ => { fp := some Stream.stdout, mode := .fmOutput } }

/-- A number moves the cursor of the console but not the tracked one. -/
theorem cursorFollows_fails_number :
    ¬Runs.Always write (CursorFollows consoleOnly) consoleOnly [((), .i64 42)] := by
  intro always
  have reported := (cursorFollows_write_iff consoleOnly consoleOnly ((), .i64 42)
    ⟨[], rfl, rfl⟩).mp always.last rfl rfl
  exact absurd reported (by decide)

end TurboState

end Runtime

end Plang
