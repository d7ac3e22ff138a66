import Mathlib.Tactic.Positivity
import Plang.Runtime.DirectFile
import Plang.Runtime.IsoOpening

/-!
# Where a direct-access file stands

The position of the stream, the window and the index a program sees are one position: going to an
index, `get` and `put` move it by whole components, and looking at the buffer variable does not move
it.
-/

namespace Plang

namespace Stdio

namespace Libc

theorem length_overwrite (text : Text) (pos : Nat) (bytes : Text) :
    (overwrite text pos bytes).length = max text.length (pos + bytes.length) := by
  simp only [overwrite, List.length_append, List.length_take, List.length_replicate,
    List.length_drop]
  omega

/-- A stream on a file stands at a position, and the file has a length. -/
structure Stands (libc : Libc) (stream : Stream) (kind : StreamKind) (pos length : Nat) : Prop where
  kind : stream.kind = kind
  pos : stream.pos = pos
  size : libc.sizeOf stream = some length

variable {libc : Libc} {stream : Stream} {kind : StreamKind} {pos length : Nat}

namespace Stands

theorem target (stands : libc.Stands stream kind pos length) :
    ∃ inode, stream.target = .file inode ∧ (libc.contents inode).length = length := by
  have size := stands.size
  rw [sizeOf] at size
  split at size
  · rename_i inode target
    exact ⟨inode, target, Option.some.inj size⟩
  · cases size

theorem of_same (stands : libc.Stands stream kind pos length) {after : Libc} {moved : Stream}
    (same_kind : moved.kind = stream.kind) (same_contents : after.contents = libc.contents)
    {place : Nat} (there : moved.pos = place) : after.Stands moved kind place length := by
  obtain ⟨inode, target, size⟩ := stands.target
  have same_target : moved.target = stream.target := congrArg StreamKind.target same_kind
  refine ⟨same_kind.trans stands.kind, there, ?_⟩
  simp only [sizeOf, same_target, target, same_contents, size]

theorem moved (stands : libc.Stands stream kind pos length) (errno : Int) (error : Bool)
    (place : Nat) :
    Stands { libc with errno } { stream with pos := place, error } kind place length :=
  ⟨stands.kind, rfl, stands.size⟩

theorem skip (stands : libc.Stands stream kind pos length) (count : Nat) :
    (libc.skip stream count).1.Stands (libc.skip stream count).2 kind (pos + count) length := by
  obtain ⟨inode, target, -⟩ := stands.target
  have skipped : libc.skip stream count = (libc, { stream with pos := stream.pos + count }) := by
    simp only [Libc.skip, target]
  rw [skipped]
  rw [← stands.pos]
  exact stands.moved _ _ _

/-- What is read is what is left, up to the count. -/
theorem fread (stands : libc.Stands stream kind pos length) (count : Nat) :
    (libc.fread stream count).1.length = (if kind.canRead then min count (length - pos) else 0) ∧
      (libc.fread stream count).2.1.Stands (libc.fread stream count).2.2 kind
        (pos + (libc.fread stream count).1.length) length := by
  obtain ⟨inode, target, size⟩ := stands.target
  have canRead : stream.canRead = kind.canRead := congrArg StreamKind.canRead stands.kind
  rcases readable : kind.canRead
  · have nothing : libc.fread stream count =
        ([], { libc with errno := EBADF }, { stream with error := true }) :=
      if_neg (by rw [canRead, readable]; exact Bool.false_ne_true)
    rw [nothing]
    refine ⟨rfl, ?_⟩
    rw [← stands.pos]
    exact stands.moved _ _ _
  · have some_ : libc.fread stream count =
        ((libc.unread stream).take count,
          libc.skip stream ((libc.unread stream).take count).length) :=
      if_pos (canRead.trans readable)
    rw [some_]
    refine ⟨?_, stands.skip _⟩
    simp only [unread, target, List.length_take, List.length_drop, size, stands.pos, if_true]

theorem fgetc (stands : libc.Stands stream kind pos length) :
    (libc.fgetc stream).1.isSome = (kind.canRead && decide (pos < length)) ∧
      (libc.fgetc stream).2.1.Stands (libc.fgetc stream).2.2 kind
        (pos + if kind.canRead && decide (pos < length) then 1 else 0) length := by
  obtain ⟨got, after⟩ := stands.fread 1
  have one : (libc.fread stream 1).1.length =
      if kind.canRead && decide (pos < length) then 1 else 0 := by
    rw [got]
    rcases kind.canRead
    · rfl
    · by_cases inside : pos < length <;> simp [inside] <;> omega
  rw [one] at after
  refine ⟨?_, after⟩
  change (libc.fread stream 1).1.head?.isSome = _
  rcases read : (libc.fread stream 1).1 with _ | ⟨first, rest⟩
  · rw [read] at one
    rcases inside : kind.canRead && decide (pos < length)
    · rfl
    · rw [inside] at one
      exact absurd one (by simp)
  · rw [read] at one
    rcases inside : kind.canRead && decide (pos < length)
    · rw [inside] at one
      exact absurd one (by simp)
    · rfl

theorem ungetc (stands : libc.Stands stream kind pos length) (char : Char) :
    (libc.ungetc stream char).1.Stands (libc.ungetc stream char).2 kind (pos - 1) length := by
  obtain ⟨inode, target, -⟩ := stands.target
  have given : libc.ungetc stream char = (libc, { stream with pos := stream.pos - 1 }) := by
    simp only [Libc.ungetc, target]
  rw [given]
  rw [← stands.pos]
  exact stands.moved _ _ _

theorem fseek (stands : libc.Stands stream kind pos length) {offset : Int} (forward : 0 ≤ offset) :
    (libc.fseek stream offset).1 = true ∧
      (libc.fseek stream offset).2.1.Stands (libc.fseek stream offset).2.2 kind offset.toNat
        length := by
  obtain ⟨inode, target, -⟩ := stands.target
  have sought : libc.fseek stream offset = (true, libc, { stream with pos := offset.toNat }) := by
    simp only [Libc.fseek, target, if_neg (Int.not_lt.mpr forward)]
  rw [sought]
  exact ⟨rfl, stands.moved _ _ _⟩

theorem fseek_back (stands : libc.Stands stream kind pos length) {offset : Int}
    (back : offset < 0) : (libc.fseek stream offset).1 = false := by
  obtain ⟨inode, target, -⟩ := stands.target
  simp only [Libc.fseek, target, if_pos back]

theorem fseekCur (stands : libc.Stands stream kind pos length) (count : Nat) :
    (libc.fseekCur stream count).2.1.Stands (libc.fseekCur stream count).2.2 kind
      (if pos + count < 2 ^ 63 then pos + count else pos) length := by
  obtain ⟨inode, target, -⟩ := stands.target
  have tell : Libc.ftell stream = some pos := by
    simp only [Libc.ftell, target, stands.pos]
  simp only [Libc.fseekCur, tell]
  by_cases fits : pos + count < 2 ^ 63
  · rw [if_pos fits, if_pos (by omega)]
    exact (stands.fseek (Int.natCast_nonneg (pos + count))).2
  · rw [if_neg fits, if_neg (by omega)]
    rw [← stands.pos]
    exact stands.moved _ _ _

theorem fflush (stands : libc.Stands stream kind pos length) :
    (libc.fflush stream).2.1.Stands (libc.fflush stream).2.2 kind pos length :=
  stands.of_same (Gentle.fflush.kind libc stream) (fflush_untouched libc stream).contents
    ((pos_fflush libc stream).trans stands.pos)

/-- What is written is written whole at the position, or the stream refuses. -/
theorem fwrite (stands : libc.Stands stream kind pos length) (appends : kind.appends = false)
    (bytes : Text) :
    (libc.fwrite stream bytes).2.2.error = true ∨
      (libc.fwrite stream bytes).2.1.Stands (libc.fwrite stream bytes).2.2 kind
        (pos + bytes.length) (max length (pos + bytes.length)) := by
  obtain ⟨inode, target, size⟩ := stands.target
  have own : stream.appends = false := (congrArg StreamKind.appends stands.kind).trans appends
  rcases writable : stream.canWrite
  · exact .inl (by simp [Libc.fwrite, target, writable])
  · rcases fault : libc.faults inode with _ | errno
    · refine .inr ?_
      rw [fwrite_of_takes target writable own fault]
      refine ⟨stands.kind, congrArg (· + _) stands.pos, ?_⟩
      simp only [sizeOf, target, Function.update_self, length_overwrite, size, stands.pos]
    · exact .inl (by rw [fwrite_of_refuses target writable fault])

end Stands

end Libc

end Stdio

namespace Runtime

open Stdio

namespace Call

/-- The stream of the file stands at a position, and the buffer variable has the size of a
component. -/
structure Stands (c : Call) (size : Nat) (kind : StreamKind) (pos length : Nat) : Prop where
  stream : ∃ stream, c.file.fp = some stream ∧ c.libc.Stands stream kind pos length
  whole : ∀ component, c.file.comp = some component → component.length = size

variable {c : Call} {size : Nat} {kind : StreamKind} {pos length : Nat}

theorem comp_onStream {α : Type} (c : Call) (default : α)
    (use : Libc → Stream → α × Libc × Stream) :
    (c.onStream default use).2.file.comp = c.file.comp := by
  rw [onStream]
  split <;> rfl

namespace Stands

/-- The stream was used. -/
theorem use {α : Type} {default : α} {use : Libc → Stream → α × Libc × Stream} {place extent : Nat}
    (stands : c.Stands size kind pos length)
    (effect : ∀ stream, c.libc.Stands stream kind pos length →
      (use c.libc stream).2.1.Stands (use c.libc stream).2.2 kind place extent) :
    (c.onStream default use).2.Stands size kind place extent := by
  obtain ⟨stream, fp, at_⟩ := stands.stream
  refine ⟨?_, fun component comp => stands.whole component ((comp_onStream ..).symm.trans comp)⟩
  simp only [onStream, fp]
  exact ⟨_, rfl, effect stream at_⟩

/-- Only the window or the direction was changed. -/
theorem window (stands : c.Stands size kind pos length) (file : PascalFile)
    (fp : file.fp = c.file.fp) (comp : file.comp = c.file.comp) :
    Stands { c with file } size kind pos length where
  stream := by
    obtain ⟨stream, opened, at_⟩ := stands.stream
    exact ⟨stream, fp.trans opened, at_⟩
  whole := fun component some_ => stands.whole component (comp.symm.trans some_)

theorem unloadComponent (stands : c.Stands size kind pos length) :
    c.unloadComponent.Stands size kind pos length := by
  rw [Call.unloadComponent]
  exact stands.window _ rfl rfl

theorem ftell (stands : c.Stands size kind pos length) : c.ftell = some pos := by
  obtain ⟨stream, fp, at_⟩ := stands.stream
  obtain ⟨inode, target, -⟩ := at_.target
  rw [Call.ftell, fp, Option.bind_some]
  simp only [Libc.ftell, target, at_.pos]

theorem sizeOf (stands : c.Stands size kind pos length) : c.sizeOf = some length := by
  obtain ⟨stream, fp, at_⟩ := stands.stream
  rw [Call.sizeOf, fp, Option.bind_some, at_.size]

theorem clearerr (stands : c.Stands size kind pos length) :
    c.clearerr.Stands size kind pos length :=
  stands.use fun stream at_ => at_.pos ▸ at_.moved c.libc.errno false stream.pos

theorem fgetc (stands : c.Stands size kind pos length) :
    c.fgetc.2.Stands size kind
      (pos + if kind.canRead && decide (pos < length) then 1 else 0) length :=
  stands.use fun _ at_ => at_.fgetc.2

theorem fread (stands : c.Stands size kind pos length) (count : Nat) :
    (c.fread count).2.Stands size kind
      (pos + if kind.canRead then min count (length - pos) else 0) length :=
  stands.use fun _ at_ => (at_.fread count).1 ▸ (at_.fread count).2

theorem fflush (stands : c.Stands size kind pos length) :
    c.fflush.2.Stands size kind pos length :=
  stands.use fun _ at_ => at_.fflush

theorem fseek (stands : c.Stands size kind pos length) {offset : Int} (forward : 0 ≤ offset) :
    (c.fseek offset).2.Stands size kind offset.toNat length :=
  stands.use fun _ at_ => (at_.fseek forward).2

theorem fseek_eq_true (stands : c.Stands size kind pos length) (offset : Int) :
    (c.fseek offset).1 = true ↔ 0 ≤ offset := by
  obtain ⟨stream, fp, at_⟩ := stands.stream
  simp only [Call.fseek, onStream, fp]
  refine ⟨fun sought => Int.not_lt.mp fun back => ?_, fun forward => (at_.fseek forward).1⟩
  rw [at_.fseek_back back] at sought
  cases sought

theorem fseekCur (stands : c.Stands size kind pos length) (count : Nat) :
    (c.fseekCur count).2.Stands size kind
      (if pos + count < 2 ^ 63 then pos + count else pos) length :=
  stands.use fun _ at_ => at_.fseekCur count

/-- Looking at the next character moves nothing. -/
theorem prime (stands : c.Stands size kind pos length) : c.prime.Stands size kind pos length := by
  obtain ⟨stream, fp, at_⟩ := stands.stream
  obtain ⟨found, after⟩ := at_.fgetc
  have comp : c.prime.file.comp = c.file.comp := by
    rcases read : c.libc.fgetc stream with ⟨_ | char, libc, moved⟩ <;>
      simp only [Call.prime, Call.fgetc, onStream, fp, read, Call.ungetc]
  refine ⟨?_, fun component some_ => stands.whole component (comp.symm.trans some_)⟩
  rcases read : c.libc.fgetc stream with ⟨_ | char, libc, moved⟩
  · rw [read] at found after
    rw [← found] at after
    simp only [Call.prime, Call.fgetc, onStream, fp, read]
    exact ⟨moved, rfl, after⟩
  · rw [read] at found after
    rw [← found] at after
    simp only [Call.prime, Call.fgetc, onStream, fp, read, Call.ungetc]
    exact ⟨_, rfl, after.ungetc char⟩

theorem ensurePrimed (stands : c.Stands size kind pos length) :
    c.ensurePrimed.Stands size kind pos length := by
  rw [Call.ensurePrimed]
  split
  · exact stands.prime
  · exact stands

/-- What is written is written whole, or the stream refuses. -/
theorem fwrite (stands : c.Stands size kind pos length) (appends : kind.appends = false)
    (bytes : Text) :
    (c.fwrite bytes).2.ferror = true ∨
      (c.fwrite bytes).2.Stands size kind (pos + bytes.length)
        (max length (pos + bytes.length)) := by
  obtain ⟨stream, fp, at_⟩ := stands.stream
  have outcome := at_.fwrite appends bytes
  rcases refused : (c.libc.fwrite stream bytes).2.2.error
  · rw [refused] at outcome
    refine .inr ⟨?_, fun component comp =>
      stands.whole component ((comp_onStream ..).symm.trans comp)⟩
    simp only [Call.fwrite, onStream, fp]
    exact ⟨_, rfl, outcome.resolve_left Bool.false_ne_true⟩
  · exact .inl (by simp only [Call.fwrite, onStream, fp, ferror, Option.any_some, refused])

end Stands

end Call

namespace IsoCall

/-- The program goes on, and its file stands at a position. -/
structure Standing (c : IsoCall) (size : Nat) (kind : StreamKind) (pos length : Nat) : Prop where
  running : c.stopped = false
  stands : c.toCall.Stands size kind pos length

variable {c : IsoCall} {size : Nat} {kind : StreamKind} {pos length : Nat}

theorem andThen_of_stopped (stopped : c.stopped = true) (next : IsoCall → IsoCall) :
    c.andThen next = c :=
  if_pos stopped

namespace Standing

theorem abortIfClosed (standing : c.Standing size kind pos length) :
    c.abortIfClosed.Standing size kind pos length := by
  obtain ⟨stream, fp, -⟩ := standing.stands.stream
  rw [IsoCall.abortIfClosed, fp]
  exact ⟨standing.running, standing.stands.clearerr⟩

/-- An operation on an open file goes on from there. -/
theorem andThen (standing : c.Standing size kind pos length) (next : IsoCall → IsoCall) :
    c.abortIfClosed.andThen next = next c.abortIfClosed :=
  andThen_of_running standing.abortIfClosed.running next

theorem withFile (standing : c.Standing size kind pos length) (change : PascalFile → PascalFile)
    (fp : (change c.file).fp = c.file.fp) (comp : (change c.file).comp = c.file.comp) :
    (c.withFile change).Standing size kind pos length :=
  ⟨standing.running, standing.stands.window (change c.file) fp comp⟩

/-- The tables of names were changed. -/
theorem tables (standing : c.Standing size kind pos length) (writePaths bindings : NameTable) :
    Standing { c with writePaths, bindings } size kind pos length :=
  ⟨standing.running, standing.stands⟩

theorem facing (standing : c.Standing size kind pos length) (readable : Readable) :
    (c.facing readable).Standing size kind pos length := by
  rw [IsoCall.facing]
  exact standing.withFile _ rfl rfl

theorem faceReader (standing : c.Standing size kind pos length) :
    c.faceReader.Standing size kind pos length := by
  rw [IsoCall.faceReader]
  exact ⟨standing.running, (standing.withFile _ rfl rfl).stands.prime⟩

/-- Going to an index ends the program, or goes to the offset of the index. -/
theorem seekTo (standing : c.Standing size kind pos length) {n indexLow : Int}
    {settle : IsoCall → IsoCall}
    (settles : ∀ {c : IsoCall} {pos : Nat}, c.Standing size kind pos length →
      (settle c).Standing size kind pos length) :
    (c.seekTo n size indexLow settle).stopped = true ∨
      ∃ offset, TurboCall.seekOffset n size indexLow = some offset ∧ 0 ≤ offset ∧
        (c.seekTo n size indexLow settle).Standing size kind offset.toNat length := by
  have ready := standing.abortIfClosed
  rw [IsoCall.seekTo, standing.andThen]
  generalize c.abortIfClosed = c at ready
  rcases TurboCall.seekOffset n size indexLow with _ | offset
  · exact .inl rfl
  · have sought := ready.stands.fseek_eq_true offset
    simp only
    rcases seek : c.fseek offset with ⟨_ | _, call⟩
    · exact .inl rfl
    · rw [seek] at sought
      have forward := sought.mp rfl
      have there := ready.stands.fseek forward
      rw [seek] at there
      exact .inr ⟨offset, rfl, forward, settles ⟨ready.running, there⟩⟩

end Standing

theorem length_charComponent (window : Window) (isText : Bool) :
    (charComponent window isText).length = 1 := by
  cases window with
  | uninit => rfl
  | eof => rfl
  | char char =>
      rw [charComponent]
      split <;> rfl

/-- How far `get` moves: where there is nothing to be read a component of one byte stays. -/
def getStep (size : Nat) (kind : StreamKind) (pos length : Nat) : Nat :=
  if 1 < size then if pos + size < 2 ^ 63 then size else 0
  else if kind.canRead && decide (pos < length) then 1 else 0

namespace Standing

theorem plangGetFile (standing : c.Standing size kind pos length) :
    (c.plangGetFile size).Standing size kind (pos + getStep size kind pos length) length := by
  have ready := standing.abortIfClosed
  rw [IsoCall.plangGetFile, standing.andThen]
  generalize c.abortIfClosed = c at ready
  have moved : (if 1 < (size : Int) then (c.toCall.fseekCur size).2.prime
      else c.toCall.advance.2).Stands size kind (pos + getStep size kind pos length) length := by
    rw [getStep]
    by_cases wide : 1 < size
    · rw [if_pos wide, if_pos (by exact_mod_cast wide)]
      have sought := (ready.stands.fseekCur size).prime
      by_cases fits : pos + size < 2 ^ 63
      · rw [if_pos fits] at sought ⊢
        exact sought
      · rw [if_neg fits] at sought ⊢
        exact sought
    · rw [if_neg wide, if_neg (by exact_mod_cast wide)]
      exact ready.stands.fgetc.prime
  exact ⟨ready.running, moved.unloadComponent⟩

/-- `put` ends the program, writes nothing, or writes the buffer variable. -/
theorem plangPutFile (standing : c.Standing size kind pos length) (appends : kind.appends = false)
    (sized : 0 < size) :
    (c.plangPutFile size).stopped = true ∨
      (c.plangPutFile size).Standing size kind (pos + if c.file.comp.isSome then size else 0)
        (if c.file.comp.isSome then max length (pos + size) else length) := by
  have ready := standing.abortIfClosed
  have same : c.abortIfClosed.file.comp = c.file.comp := by
    obtain ⟨stream, fp, -⟩ := standing.stands.stream
    rw [IsoCall.abortIfClosed, fp]
    exact Call.comp_onStream ..
  rw [IsoCall.plangPutFile, standing.andThen, ← same]
  generalize c.abortIfClosed = c at ready
  rcases comp : c.file.comp with _ | component
  · exact .inr ready
  · have whole := ready.stands.whole component comp
    have bytes : component.take (max (size : Int) 1).toNat = component := by
      rw [List.take_of_length_le]
      omega
    have some_ : component ≠ [] := by
      rintro rfl
      rw [← whole] at sized
      exact absurd sized (Nat.lt_irrefl 0)
    simp only [bytes, Option.isSome_some, if_true]
    rcases trapped : (c.trapOnWrongDirection true).stopped
    · have untouched : c.trapOnWrongDirection true = c := by
        rw [trapOnWrongDirection] at trapped ⊢
        split at trapped
        · rename_i allowed
          exact if_pos allowed
        · rename_i internal
          split at trapped
          · cases trapped
          · rename_i direction
            rw [if_neg internal, if_neg direction]
      rw [untouched, andThen_of_running ready.running]
      have written := ready.stands.fwrite appends component
      rw [whole] at written
      have put_eq : c.put component = c.shared fun call => (call.fwrite component).2 := if_neg some_
      rw [put_eq, trapOnStreamError]
      split
      · exact .inl rfl
      · rename_i accepted
        have after := written.resolve_left accepted
        rw [andThen_of_running (c := c.shared _) ready.running]
        exact .inr ⟨ready.running, after.unloadComponent⟩
    · rw [andThen_of_stopped trapped]
      exact .inl trapped

theorem loaded (standing : c.Standing size kind pos length) {component : Text}
    (whole : component.length = size) : (c.loaded component).Standing size kind pos length :=
  ⟨standing.running, standing.stands.stream, fun _ some_ => by cases some_; exact whole⟩

theorem allocated (standing : c.Standing size kind pos length) :
    (c.allocated size).Standing size kind pos length := by
  rw [IsoCall.allocated]
  split
  · exact standing
  · exact ⟨standing.running, standing.stands.stream, fun _ some_ => by cases some_; simp [blank]⟩

/-- A component is read where it is, and the position put back. -/
theorem peekComponent (standing : c.Standing size kind pos length) :
    (c.peekComponent size).Standing size kind pos length := by
  have read := (standing.stands.fread size).clearerr.fseek (Int.natCast_nonneg pos)
  have back : Standing { c with toCall := ((c.fread size).2.clearerr.fseek pos).2.prime } size
      kind pos length := ⟨standing.running, read.prime⟩
  rw [IsoCall.peekComponent]
  simp only [standing.stands.ftell]
  refine back.loaded ?_
  split
  · assumption
  · simp [blank]

theorem loadComponent (standing : c.Standing size kind pos length) (isText : Bool) :
    (c.loadComponent size isText).Standing size kind pos length := by
  have primed : (c.shared Call.ensurePrimed).Standing size kind pos length :=
    ⟨standing.running, standing.stands.ensurePrimed⟩
  rw [IsoCall.loadComponent]
  split
  · simp only
    split
    · rename_i one
      refine primed.loaded ?_
      have size_eq : size = 1 := by exact_mod_cast one
      rw [length_charComponent, size_eq]
    · exact primed.peekComponent
  · exact standing.loaded (by simp [blank])

/-- Looking at the buffer variable moves nothing. -/
theorem plangFileBuffer (standing : c.Standing size kind pos length) (sized : 0 < size)
    (isText : Bool) : (c.plangFileBuffer size isText).Standing size kind pos length := by
  have ready := standing.abortIfClosed.allocated
  have size_eq : max (size : Int) 1 = size := by omega
  rw [IsoCall.plangFileBuffer, standing.andThen]
  simp only [size_eq]
  split
  · exact ready
  · exact ready.loadComponent isText

end Standing

/-! ### Opening for an update -/

theorem comp_endLine (c : IsoCall) (last : Option Char) :
    (c.endLine last).file.comp = c.file.comp := by
  cases last with
  | none => rfl
  | some char =>
      rw [endLine]
      split
      · rfl
      · exact Call.comp_onStream ..

/-- Ending the last line leaves the buffer variable alone. -/
theorem comp_finishText (c : IsoCall) (isText : Bool) :
    (c.finishText isText).file.comp = c.file.comp := by
  have flushed : (c.shared fun call => call.fflush.2).file.comp = c.file.comp :=
    Call.comp_onStream ..
  rw [finishText]
  split
  · rw [closeFinalLine]
    split
    · rfl
    · rw [← flushed]
      generalize (c.shared fun call => call.fflush.2) = c
      simp only
      split
      · rfl
      · rfl
      · rename_i pos _ _
        split
        · rw [closeNamedLine]
          split
          · rfl
          · exact comp_endLine ..
        · rw [closeOwnLine]
          split
          · rename_i call sought
            have comp : (c.fseek ((pos : Int) - 1)).2.file.comp = c.file.comp :=
              Call.comp_onStream ..
            rwa [sought] at comp
          · rename_i call sought
            have comp : (c.fseek ((pos : Int) - 1)).2.file.comp = c.file.comp :=
              Call.comp_onStream ..
            rw [sought] at comp
            have fetched : call.fgetc.2.file.comp = call.file.comp := Call.comp_onStream ..
            exact (Call.comp_onStream ..).trans ((comp_endLine ..).trans (fetched.trans comp))
  · rfl

/-- A file opened in both directions stands at its front. -/
theorem stands_of_fopen {libc after : Libc} {request : Request} {path : Text} {stream : Stream}
    (both : request = .readUpdate ∨ request = .writeUpdate)
    (opened : libc.fopen request path = (some stream, after)) :
    ∃ kind length, kind.appends = false ∧ after.Stands stream kind 0 length := by
  have attached : ∀ inode size, (Libc.attach request (.file inode) size).appends = false ∧
      (Libc.attach request (.file inode) size).pos = 0 ∧
      (Libc.attach request (.file inode) size).target = .file inode := by
    rcases both with rfl | rfl <;> exact fun _ _ => ⟨rfl, rfl, rfl⟩
  have found : ∃ inode size, stream = Libc.attach request (.file inode) size := by
    rw [Libc.fopen] at opened
    split at opened
    · cases opened
    · split at opened
      · split at opened
        · exact ⟨_, _, (Option.some.inj (congrArg Prod.fst opened)).symm⟩
        · cases opened
      · split at opened
        · rename_i reads
          rcases both with rfl | rfl <;> cases reads
        · cases opened
      · split at opened <;> exact ⟨_, _, (Option.some.inj (congrArg Prod.fst opened)).symm⟩
  obtain ⟨inode, size, rfl⟩ := found
  obtain ⟨appends, front, target⟩ := attached inode size
  refine ⟨_, (after.contents inode).length, appends, rfl, front, ?_⟩
  simp only [Libc.sizeOf, target]

theorem standing_openBoth (running : c.stopped = false)
    (whole : ∀ component, c.file.comp = some component → component.length = size) (name : Text) :
    (c.openBoth name).stopped = true ∨ ∃ kind length, kind.appends = false ∧
      (c.openBoth name).Standing size kind 0 length := by
  rw [openBoth]
  rcases opened : c.libc.fopen .readUpdate name with ⟨_ | stream, libc⟩
  · simp only
    rcases created : libc.fopen .writeUpdate name with ⟨_ | stream, after⟩
    · exact .inl rfl
    · obtain ⟨kind, length, appends, stands⟩ := stands_of_fopen (.inr rfl) created
      exact .inr ⟨kind, length, appends, running, ⟨stream, rfl, stands⟩, whole⟩
  · obtain ⟨kind, length, appends, stands⟩ := stands_of_fopen (.inl rfl) opened
    exact .inr ⟨kind, length, appends, running, ⟨stream, rfl, stands⟩, whole⟩

namespace Standing

theorem front (standing : c.Standing size kind pos length) :
    ((c.goTo 0).shared Call.clearerr).Standing size kind 0 length :=
  ⟨standing.running, (standing.stands.fflush.fseek (Int.le_refl 0)).clearerr⟩

/-- Ending the last line leaves the stream open. -/
theorem finishText (standing : c.Standing size kind pos length) (isText : Bool) :
    ∃ pos length, (c.finishText isText).Standing size kind pos length := by
  have moves := Moves.finishText c isText
  have comp := comp_finishText c isText
  generalize c.finishText isText = after at *
  obtain ⟨stream, fp, stands⟩ := standing.stands.stream
  obtain ⟨inode, target, -⟩ := stands.target
  have kinds := moves.kind
  rw [fp, Option.map_some, stands.kind] at kinds
  obtain ⟨moved, opened, same⟩ := Option.map_eq_some_iff.mp kinds
  have moved_target : moved.target = .file inode :=
    (congrArg StreamKind.target (same.trans stands.kind.symm)).trans target
  refine ⟨moved.pos, (after.libc.contents inode).length, moves.stopped.trans standing.running,
    ⟨moved, opened, same, rfl, ?_⟩, fun component some_ =>
      standing.stands.whole component (comp.symm.trans some_)⟩
  simp only [Libc.sizeOf, moved_target]

/-- `update` ends the program, or goes to the front of the file. -/
theorem plangUpdate (standing : c.Standing size kind pos length) (appends : kind.appends = false)
    (name : Text) (isText : Bool) :
    (c.plangUpdate name isText).stopped = true ∨ ∃ kind length, kind.appends = false ∧
      (c.plangUpdate name isText).Standing size kind 0 length := by
  obtain ⟨pos, length, ready⟩ := standing.finishText isText
  rw [IsoCall.plangUpdate, openAt]
  generalize c.finishText isText = c at ready
  split
  · obtain ⟨stream, fp, -⟩ := ready.stands.stream
    have front := ready.front
    rw [bothInternal, fp, if_pos Option.isSome_some, andThen_clearWritePath front.running]
    exact .inr ⟨kind, length, appends, (front.tables _ _).facing .both⟩
  · have whole : ∀ component, (c.shared Call.closeStream).file.comp = some component →
        component.length = size := ready.stands.whole
    have opened := standing_openBoth (c := c.shared Call.closeStream) ready.running whole
      (c.nameToOpen name)
    rw [bothNamed]
    generalize (c.shared Call.closeStream).openBoth (c.nameToOpen name) = opening at opened
    rcases opened with stopped | ⟨kind, length, appends, opened⟩
    · rw [andThen_of_stopped stopped, andThen_of_stopped stopped]
      exact .inl stopped
    · have front := opened.front
      rw [andThen_of_running opened.running]
      obtain ⟨writePaths, set_eq⟩ := setWritePath_frame
        ((opening.goTo 0).shared Call.clearerr) (c.nameToOpen name)
      rw [set_eq]
      obtain ⟨bindings, kept, -⟩ | stops := retain_cases
        { (opening.goTo 0).shared Call.clearerr with writePaths } name
      · have tables := front.tables writePaths bindings
        rw [kept, andThen_of_running tables.running]
        exact .inr ⟨kind, length, appends, tables.facing .both⟩
      · rw [stops]
        exact .inl rfl

end Standing

end IsoCall

end Runtime

end Plang
