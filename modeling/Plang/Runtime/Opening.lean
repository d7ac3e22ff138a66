import Plang.Runtime.TurboMachine

/-!
# What keeps a file open

Only assigning, opening and closing change the mode of a file variable and whether it has a stream.
-/

namespace Plang

namespace Runtime

open Stdio

namespace Call

/-- The mode, and whether there is a stream. -/
def opening (c : Call) : FileMode × Bool := (c.file.mode, c.file.fp.isSome)

variable {c : Call}

@[simp] theorem opening_onStream {α : Type} (default : α)
    (use : Libc → Stream → α × Libc × Stream) :
    (c.onStream default use).2.opening = c.opening := by
  rcases fp : c.file.fp with _ | stream
  · simp [onStream, fp]
  · simp [onStream, fp, opening]

@[simp] theorem opening_clearerr : c.clearerr.opening = c.opening := opening_onStream ..

@[simp] theorem opening_fgetc : c.fgetc.2.opening = c.opening := opening_onStream ..

@[simp] theorem opening_fread (count : Nat) : (c.fread count).2.opening = c.opening :=
  opening_onStream ..

@[simp] theorem opening_fwrite (bytes : Text) : (c.fwrite bytes).2.opening = c.opening :=
  opening_onStream ..

@[simp] theorem opening_ungetc (char : Char) : (c.ungetc char).opening = c.opening :=
  opening_onStream ..

@[simp] theorem opening_fseek (offset : Int) : (c.fseek offset).2.opening = c.opening :=
  opening_onStream ..

@[simp] theorem opening_fflush : c.fflush.2.opening = c.opening := opening_onStream ..

@[simp] theorem opening_prime : c.prime.opening = c.opening := by
  have read_opening := opening_fgetc (c := c)
  rcases read_eq : c.fgetc with ⟨_ | char, read⟩
  · rw [read_eq] at read_opening
    simpa [prime, read_eq, opening] using read_opening
  · rw [read_eq] at read_opening
    have back_opening := (opening_ungetc (c := read) char).trans read_opening
    simpa [prime, read_eq, opening] using back_opening

@[simp] theorem opening_ensurePrimed : c.ensurePrimed.opening = c.opening := by
  rw [ensurePrimed]
  split
  · exact opening_prime
  · rfl

@[simp] theorem opening_advance : c.advance.2.opening = c.opening := by
  rw [advance, opening_prime, opening_fgetc]

@[simp] theorem opening_unloadComponent : c.unloadComponent.opening = c.opening := rfl

@[simp] theorem opening_closeStream : c.closeStream.opening = (c.file.mode, false) := rfl

end Call

namespace TurboCall

variable {c : TurboCall}

@[simp] theorem opening_setInOutResIfClear (code : Int) :
    (c.setInOutResIfClear code).opening = c.opening := by
  rw [setInOutResIfClear]
  split <;> rfl

@[simp] theorem opening_failed (libc : Libc) : (c.failed libc).opening = c.opening := by
  rw [failed, opening_setInOutResIfClear]
  rfl

theorem opening_shared {use : Call → Call} (kept : (use c.toCall).opening = c.opening) :
    (c.shared use).opening = c.opening := kept

@[simp] theorem opening_tpFileReady : c.tpFileReady.2.opening = c.opening := by
  rw [tpFileReady]
  split
  · rfl
  · split
    · exact opening_setInOutResIfClear 103
    · exact opening_shared Call.opening_clearerr

theorem opening_ifReady {body : TurboCall → TurboCall}
    (kept : ∀ ready : TurboCall, (body ready).opening = ready.opening) :
    (c.ifReady body).opening = c.opening := by
  have ready_opening := opening_tpFileReady (c := c)
  rcases ready_eq : c.tpFileReady with ⟨_ | _, ready⟩
  · simpa [ifReady, ready_eq] using ready_opening
  · rw [ready_eq] at ready_opening
    simpa [ifReady, ready_eq] using (kept ready).trans ready_opening

theorem opening_ifReadyOr {α : Type} {answer : α} {body : TurboCall → α × TurboCall}
    (kept : ∀ ready : TurboCall, (body ready).2.opening = ready.opening) :
    (c.ifReadyOr answer body).2.opening = c.opening := by
  have ready_opening := opening_tpFileReady (c := c)
  rcases ready_eq : c.tpFileReady with ⟨_ | _, ready⟩
  · simpa [ifReadyOr, ready_eq] using ready_opening
  · rw [ready_eq] at ready_opening
    simpa [ifReadyOr, ready_eq] using (kept ready).trans ready_opening

@[simp] theorem opening_tpTrapOnStreamError (wantWrite : Bool) :
    (c.tpTrapOnStreamError wantWrite).opening = c.opening := by
  rw [tpTrapOnStreamError]
  split
  · split <;> exact opening_setInOutResIfClear _
  · rfl

@[simp] theorem opening_tpTrapOnWrongDirection (wantWrite : Bool) :
    (c.tpTrapOnWrongDirection wantWrite).opening = c.opening := by
  rw [tpTrapOnWrongDirection]
  split
  · rfl
  · split
    · exact opening_setInOutResIfClear _
    · rfl

@[simp] theorem opening_unprime : c.unprime.opening = c.opening := rfl

@[simp] theorem opening_checkRead : c.checkRead.opening = c.opening := opening_tpTrapOnStreamError _

/-! ## Positions and blocks -/

theorem opening_plangTpFilepos : c.plangTpFilepos.2.opening = c.opening := by
  refine opening_ifReadyOr fun ready => ?_
  split <;> rfl

theorem opening_plangTpFilesize : c.plangTpFilesize.2.opening = c.opening := by
  refine opening_ifReadyOr fun ready => ?_
  split <;> rfl

theorem opening_plangTpSeek (n : Int) : (c.plangTpSeek n).opening = c.opening := by
  refine opening_ifReady fun ready => ?_
  split
  · exact opening_setInOutResIfClear 218
  · rename_i offset _
    have sought := Call.opening_fseek (c := ready.toCall) offset
    split <;> rename_i seek_eq <;> rw [seek_eq] at sought
    · rw [opening_failed]
      exact sought
    · rw [opening_unprime]
      exact sought

theorem opening_truncateHere : c.truncateHere.opening = c.opening := by
  rw [truncateHere]
  split
  · split
    · exact opening_failed _
    · rfl
  · exact opening_failed _

theorem opening_plangTpTruncate : c.plangTpTruncate.opening = c.opening := by
  refine opening_ifReady fun ready => ?_
  split
  · exact opening_setInOutResIfClear 103
  · rw [opening_truncateHere]
    exact opening_shared Call.opening_fflush

theorem opening_plangTpBlockread (count : Int) (hasResult : Bool) :
    (c.plangTpBlockread count hasResult).2.opening = c.opening := by
  refine opening_ifReadyOr fun ready => ?_
  split
  · rfl
  · split
    · rfl
    · split
      · rfl
      · have block := Call.opening_fread (c := ready.toCall) (blockBytes count ready.file.recSize)
        dsimp only
        split
        · rw [opening_setInOutResIfClear, opening_unprime]
          exact block
        · exact block

theorem opening_plangTpBlockwrite (buf : Text) (count : Int) (hasResult : Bool) :
    (c.plangTpBlockwrite buf count hasResult).2.opening = c.opening := by
  refine opening_ifReadyOr fun ready => ?_
  split
  · rfl
  · split
    · rfl
    · split
      · rfl
      · have block := Call.opening_fwrite (c := (ready.tpTrapOnWrongDirection true).toCall)
          (buf.take (blockBytes count ready.file.recSize))
        rw [opening_tpTrapOnWrongDirection] at block
        dsimp only
        split
        · rw [opening_setInOutResIfClear, opening_unprime, opening_tpTrapOnStreamError]
          exact block
        · rw [opening_unprime, opening_tpTrapOnStreamError]
          exact block

theorem opening_plangTpFlush : c.plangTpFlush.opening = c.opening := by
  refine opening_ifReady fun ready => ?_
  have checked : ready.tpFlushWrongDirection.opening = ready.opening := by
    rw [tpFlushWrongDirection]
    split
    · exact opening_setInOutResIfClear 105
    · rfl
  have flushed := (Call.opening_fflush (c := ready.tpFlushWrongDirection.toCall)).trans checked
  dsimp only
  split <;> rename_i flush_eq <;> rw [flush_eq] at flushed
  · rw [opening_failed]
    exact flushed
  · exact flushed

/-! ## Texts -/

theorem opening_advanceWhile {keep : Window → Bool} {check : TurboCall → TurboCall}
    (kept : ∀ now : TurboCall, (check now).opening = now.opening) (fuel : Nat) (c : TurboCall) :
    (advanceWhile keep check fuel c).2.opening = c.opening := by
  induction fuel generalizing c with
  | zero => rfl
  | succ fuel induction =>
      rw [advanceWhile]
      split
      · rw [induction, kept]
        exact Call.opening_advance
      · rfl

theorem opening_readWhile {keep : Window → Bool} {check : TurboCall → TurboCall}
    (kept : ∀ now : TurboCall, (check now).opening = now.opening) :
    (c.readWhile keep check).2.opening = c.opening :=
  opening_advanceWhile kept c.bound c

theorem opening_skipTurboWhitespace (crossLines : Bool) :
    (c.skipTurboWhitespace crossLines).opening = c.opening := by
  rw [skipTurboWhitespace]
  exact (opening_readWhile fun _ => rfl).trans (opening_shared Call.opening_ensurePrimed)

theorem opening_plangEofFileTurbo : c.plangEofFileTurbo.2.opening = c.opening := by
  rw [plangEofFileTurbo]
  split
  · rfl
  · refine opening_ifReadyOr fun ready => ?_
    split
    · rfl
    · split
      · exact opening_plangTpFilesize.trans opening_plangTpFilepos
      · exact opening_shared Call.opening_ensurePrimed

theorem opening_plangEolnFileTurbo : c.plangEolnFileTurbo.2.opening = c.opening := by
  rw [plangEolnFileTurbo]
  split
  · rfl
  · exact opening_ifReadyOr fun ready => opening_shared Call.opening_ensurePrimed

theorem opening_plangTpSeekeof : c.plangTpSeekeof.2.opening = c.opening := by
  refine opening_ifReadyOr fun ready => ?_
  split
  · rfl
  · exact opening_skipTurboWhitespace true

theorem opening_plangTpSeekeoln : c.plangTpSeekeoln.2.opening = c.opening := by
  refine opening_ifReadyOr fun ready => ?_
  split
  · rfl
  · exact opening_skipTurboWhitespace false

theorem opening_plangReadlnFileTurbo : c.plangReadlnFileTurbo.opening = c.opening := by
  refine opening_ifReady fun ready => ?_
  have line : ((ready.shared Call.ensurePrimed).readWhile Window.inLine id).2.opening =
      ready.opening :=
    (opening_readWhile fun _ => rfl).trans (opening_shared Call.opening_ensurePrimed)
  rw [← line]
  generalize ((ready.shared Call.ensurePrimed).readWhile Window.inLine id).2 = passed
  dsimp only
  refine (opening_shared Call.opening_unloadComponent).trans ?_
  split
  · split
    · exact Call.opening_advance.trans Call.opening_advance
    · exact Call.opening_advance
  · split
    · exact Call.opening_advance
    · rfl

theorem opening_scanTokenTurboFile : c.scanTokenTurboFile.2.opening = c.opening := by
  have primed : (if c.file.buf = .uninit then c.shared Call.prime else c).opening = c.opening := by
    split
    · exact opening_shared Call.opening_prime
    · rfl
  rw [scanTokenTurboFile]
  dsimp only
  rw [opening_readWhile fun _ => opening_checkRead, tpSkipBlanksFile,
    opening_readWhile fun _ => opening_checkRead, opening_checkRead, primed]

theorem opening_readToken {α : Type} (error : α) (value : Text → Option α) :
    (c.readToken error value).2.opening = c.opening := by
  refine opening_ifReadyOr fun ready => ?_
  have read := (opening_scanTokenTurboFile (c := ready.tpTrapOnWrongDirection false)).trans
    (opening_tpTrapOnWrongDirection false)
  have after : ((ready.tpTrapOnWrongDirection false).scanTokenTurboFile.2.shared
      Call.unloadComponent).opening = ready.opening :=
    (opening_shared Call.opening_unloadComponent).trans read
  dsimp only
  split
  · exact after
  · split
    · exact after
    · rw [opening_setInOutResIfClear]
      exact after

theorem opening_readLine : c.readLine.2.opening = c.opening := by
  rw [readLine, opening_readWhile fun _ => opening_checkRead]
  exact (opening_shared Call.opening_ensurePrimed).trans (opening_tpTrapOnWrongDirection false)

/-- Reading keeps the file open. -/
theorem opening_read (reading : Reading) : (c.read reading).opening = c.opening := by
  cases reading with
  | i64 => exact opening_readToken 0 turboInteger
  | u64 => exact opening_readToken 0 turboUnsigned
  | f64 => exact opening_readToken 0 c.reals.parse
  | char =>
      refine opening_ifReadyOr fun ready => ?_
      have primed : ((ready.tpTrapOnWrongDirection false).shared Call.ensurePrimed).opening =
          ready.opening :=
        (opening_shared Call.opening_ensurePrimed).trans (opening_tpTrapOnWrongDirection false)
      dsimp only
      split
      · exact primed
      · refine (opening_shared Call.opening_unloadComponent).trans ?_
        rw [opening_checkRead]
        exact Call.opening_advance.trans primed
  | strFixed n => exact opening_ifReadyOr fun ready => opening_readLine
  | sstr cap => exact opening_ifReadyOr fun ready => opening_readLine
  | binary elemSize =>
      refine opening_ifReadyOr fun ready => ?_
      have block := (Call.opening_fread (c := (ready.tpTrapOnWrongDirection false).toCall)
        elemSize).trans (opening_tpTrapOnWrongDirection false)
      refine (opening_shared Call.opening_prime).trans ?_
      split
      · rw [opening_checkRead]
        exact block
      · rw [opening_setInOutResIfClear, opening_checkRead]
        exact block

theorem opening_putChecked (text : Text) : (c.putChecked text).opening = c.opening := by
  rw [putChecked, opening_tpTrapOnStreamError]
  exact Call.opening_fwrite text |>.trans (opening_tpTrapOnWrongDirection true)

theorem opening_track (text : Text) : (c.track text).opening = c.opening := by
  rw [track]
  split <;> rfl

theorem opening_putTracked (text : Text) : (c.putTracked text).opening = c.opening := by
  rw [putTracked, opening_tpTrapOnStreamError, opening_track]
  exact Call.opening_fwrite text |>.trans (opening_tpTrapOnWrongDirection true)

theorem opening_writeFile (text : Text) : (c.writeFile text).opening = c.opening :=
  opening_ifReady fun _ => opening_putChecked text

theorem opening_writeFileTracked (text : Text) : (c.writeFileTracked text).opening = c.opening :=
  opening_ifReady fun _ => opening_putTracked text

theorem opening_tpWritePadded (text : Text) (width : Int) (noTrunc : Bool) :
    (c.tpWritePadded text width noTrunc).opening = c.opening := by
  rw [tpWritePadded]
  split
  · rfl
  · exact opening_putChecked _

theorem opening_putNonempty (text : Text) : (c.putNonempty text).opening = c.opening := by
  rw [putNonempty]
  split
  · rfl
  · exact opening_putChecked text

/-- Writing keeps the file open. -/
theorem opening_write (writing : Writing) : (c.write writing).opening = c.opening := by
  cases writing with
  | writeln => exact opening_writeFileTracked _
  | char value => exact opening_writeFileTracked _
  | str value => exact opening_writeFileTracked _
  | i64 value => exact opening_writeFile _
  | u64 value => exact opening_writeFile _
  | bool value upper => exact opening_writeFile _
  | f64E value width upper => exact opening_writeFile _
  | f32E value width upper => exact opening_writeFile _
  | f64 value upper => exact opening_writeFile _
  | f32 value upper => exact opening_writeFile _
  | i64W value width => exact opening_writeFile _
  | u64W value width => exact opening_writeFile _
  | f64F value width decimals upper =>
      refine opening_ifReady fun ready => ?_
      split
      · exact opening_writeFile _
      · exact opening_putChecked _
  | boolW value width upper noTrunc => exact opening_ifReady fun _ => opening_tpWritePadded ..
  | strW value width noTrunc => exact opening_ifReady fun _ => opening_tpWritePadded ..
  | charW value width alwaysWrite =>
      refine opening_ifReady fun ready => ?_
      split
      · rfl
      · split <;> exact opening_putChecked _
  | strFixed value => exact opening_ifReady fun _ => opening_putNonempty value
  | sstr value => exact opening_ifReady fun _ => opening_putNonempty value
  | strFixedW value width => exact opening_ifReady fun _ => opening_tpWritePadded ..
  | sstrW value width => exact opening_ifReady fun _ => opening_tpWritePadded ..
  | binary bytes => exact opening_ifReady fun _ => opening_putChecked bytes

/-- `Erase` and `Rename` do not open or close. -/
theorem opening_plangTpErase : c.plangTpErase.opening = c.opening := by
  rw [plangTpErase]
  split
  · rfl
  · split
    · exact opening_setInOutResIfClear 102
    · split
      · exact opening_failed _
      · rfl

theorem opening_plangTpRename (newName : Option Text) :
    (c.plangTpRename newName).opening = c.opening := by
  rw [plangTpRename]
  split
  · rfl
  · split
    · exact opening_setInOutResIfClear 102
    · split
      · exact opening_failed _
      · rfl

end TurboCall

end Runtime

end Plang
