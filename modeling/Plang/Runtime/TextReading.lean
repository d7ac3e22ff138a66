import Plang.Runtime.StandardInput
import Plang.Runtime.TurboLatch
import Plang.Runtime.TurboText

/-!
# Files that are read

What looking ahead, consuming a character and reading on do to a file of which some text is unread,
whatever its stream is attached to.
-/

namespace Plang

namespace Stdio.Libc

variable {libc : Libc} {stream : Stream}

theorem unread_skip (libc : Libc) (stream : Stream) (count : Nat) :
    (libc.skip stream count).1.unread (libc.skip stream count).2 =
      (libc.unread stream).drop count := by
  rcases target : stream.target with _ | _ | _ | inode <;>
    simp [skip, unread, target, List.drop_drop]

theorem skip_stream (libc : Libc) (stream : Stream) (count : Nat) :
    ∃ pos, (libc.skip stream count).2 = { stream with pos } := by
  rw [skip]
  split
  · exact ⟨stream.pos, rfl⟩
  · exact ⟨stream.pos + count, rfl⟩

theorem ungetc_stream (libc : Libc) (stream : Stream) (c : Char) :
    ∃ pos, (libc.ungetc stream c).2 = { stream with pos } := by
  rw [ungetc]
  split
  · exact ⟨stream.pos, rfl⟩
  · exact ⟨stream.pos - 1, rfl⟩

/-- The next byte is the first unread one, and then the others are unread. -/
theorem fgetc_eq (libc : Libc) {stream : Stream} (readable : stream.canRead) :
    ∃ after pos, libc.fgetc stream =
        ((libc.unread stream).head?, after, { stream with pos }) ∧
      after.unread { stream with pos } = (libc.unread stream).tail := by
  obtain ⟨pos, moved⟩ := skip_stream libc stream ((libc.unread stream).take 1).length
  have rest := unread_skip libc stream ((libc.unread stream).take 1).length
  refine ⟨(libc.skip stream ((libc.unread stream).take 1).length).1, pos, ?_, ?_⟩
  · rw [fgetc, fread, if_pos readable]
    refine Prod.ext ?_ (Prod.ext rfl moved)
    cases libc.unread stream <;> rfl
  · rw [← moved, rest]
    cases libc.unread stream <;> rfl

end Stdio.Libc

namespace Runtime

open Stdio

namespace Call

/-- Two calls that differ at most in the stream and the window. -/
def Moved (before after : Call) : Prop :=
  ∃ fp buf, after.file = { before.file with fp, buf }

theorem Moved.refl (c : Call) : Moved c c := ⟨c.file.fp, c.file.buf, rfl⟩

theorem Moved.trans {before between after : Call} (first : Moved before between)
    (second : Moved between after) : Moved before after := by
  obtain ⟨_, _, file⟩ := first
  obtain ⟨fp, buf, file_after⟩ := second
  exact ⟨fp, buf, by rw [file_after, file]⟩

/-- The file is open for reading, in order, and has this text before it. -/
structure Ahead (c : Call) (text : Text) : Prop where
  stream : ∃ stream, c.file.fp = some stream ∧ stream.canRead ∧ stream.error = false ∧
    c.libc.unread stream = text
  readable : c.file.readable.nonzero

/-- The window shows what is ahead. -/
structure Shows (c : Call) (text : Text) : Prop extends Ahead c text where
  buf : c.file.buf = IsoCall.windowOf text

/-- The window shows what is ahead, or nothing has filled it. -/
structure Holds (c : Call) (text : Text) : Prop extends Ahead c text where
  buf : c.file.buf = .uninit ∨ c.file.buf = IsoCall.windowOf text

theorem Shows.holds {c : Call} {text : Text} (shows : c.Shows text) : c.Holds text :=
  ⟨shows.toAhead, .inr shows.buf⟩

section Ahead

variable {c : Call} {text : Text} (ahead : c.Ahead text)
include ahead

theorem Ahead.ferror : c.ferror = false := by
  obtain ⟨stream, open_, -, error, -⟩ := ahead.stream
  rw [Call.ferror, open_]
  exact error

theorem Ahead.clearerr : c.clearerr = c := by
  obtain ⟨stream, open_, readable, error, unread⟩ := ahead.stream
  obtain ⟨libc, file⟩ := c
  obtain ⟨fp, comp, compSize, buf, binding, direction, compLoaded, name, mode, recSize⟩ := file
  obtain ⟨target, canRead, canWrite, appends, pos, failed⟩ := stream
  cases open_
  cases error
  rfl

theorem Ahead.left : c.left = text.length := by
  obtain ⟨stream, open_, -, -, unread⟩ := ahead.stream
  rw [Call.left, open_, ← unread]
  rfl

theorem Ahead.fgetc :
    c.fgetc.1 = text.head? ∧ c.fgetc.2.Ahead text.tail ∧ Moved c c.fgetc.2 := by
  obtain ⟨stream, open_, readable, error, rfl⟩ := ahead.stream
  obtain ⟨after, pos, read, rest⟩ := c.libc.fgetc_eq readable
  have got : c.fgetc = ((c.libc.unread stream).head?,
      { libc := after, file := { c.file with fp := some { stream with pos } } }) := by
    simp only [Call.fgetc, onStream, open_, read]
  rw [got]
  exact ⟨rfl, ⟨⟨_, rfl, readable, error, rest⟩, ahead.readable⟩, _, c.file.buf, rfl⟩

/-- Looking ahead consumes nothing. -/
theorem Ahead.prime : c.prime.Shows text ∧ Moved c c.prime := by
  obtain ⟨stream, open_, readable, error, rfl⟩ := ahead.stream
  obtain ⟨after, pos, read, rest⟩ := c.libc.fgetc_eq readable
  cases unread : c.libc.unread stream with
  | nil =>
      rw [unread] at read rest
      have primed : c.prime =
          { libc := after, file := { c.file with fp := some { stream with pos }, buf := .eof } } := by
        simp only [Call.prime, Call.fgetc, onStream, open_, read, List.head?_nil]
      rw [primed]
      exact ⟨⟨⟨⟨_, rfl, readable, error, rest⟩, ahead.readable⟩, rfl⟩, _, _, rfl⟩
  | cons d more =>
      rw [unread] at read rest
      obtain ⟨-, given_back⟩ := Libc.unread_of_fgetc read
      obtain ⟨place, back⟩ := after.ungetc_stream { stream with pos } d
      rw [back, rest, List.tail_cons] at given_back
      have primed : c.prime =
          { libc := (after.ungetc { stream with pos } d).1
            file := { c.file with fp := some { stream with pos := place }, buf := .char d } } := by
        simp only [Call.prime, Call.fgetc, onStream, open_, read, List.head?_cons, Call.ungetc, back]
      rw [primed]
      exact ⟨⟨⟨⟨_, rfl, readable, error, given_back⟩, ahead.readable⟩, rfl⟩, _, _, rfl⟩

/-- Consuming a character leaves the others, and the window shows the next one. -/
theorem Ahead.advance :
    c.advance.1 = text.head? ∧ c.advance.2.Shows text.tail ∧ Moved c c.advance.2 := by
  obtain ⟨char, rest, moved⟩ := ahead.fgetc
  obtain ⟨shows, primed⟩ := rest.prime
  exact ⟨char, shows, moved.trans primed⟩

end Ahead

/-- Filling the window where nothing has filled it: what a scanner does first. -/
theorem Holds.primed {c : Call} {text : Text} (holds : c.Holds text) :
    ∃ primed : Call, primed.Shows text ∧ Moved c primed ∧
      (if c.file.buf = .uninit then c.prime else c) = primed := by
  by_cases uninit : c.file.buf = .uninit
  · exact ⟨c.prime, holds.prime.1, holds.prime.2, if_pos uninit⟩
  · exact ⟨c, ⟨holds.toAhead, holds.buf.resolve_left uninit⟩, .refl c, if_neg uninit⟩

/-- A window that nothing has filled is filled. -/
theorem Holds.ensurePrimed {c : Call} {text : Text} (holds : c.Holds text) :
    c.ensurePrimed.Shows text ∧ Moved c c.ensurePrimed := by
  obtain ⟨stream, open_, -⟩ := holds.stream
  rw [Call.ensurePrimed]
  split
  · exact holds.prime
  · rename_i filled
    refine ⟨⟨holds.toAhead, holds.buf.resolve_left fun uninit => filled ⟨uninit, holds.readable, ?_⟩⟩,
      .refl c⟩
    rw [open_]
    rfl

end Call

theorem windowOf_eq_eof {text : Text} : IsoCall.windowOf text = .eof ↔ text = [] := by
  cases text <;> simp [IsoCall.windowOf]

namespace TurboCall

/-! ### Texts of Turbo Pascal -/

/-- A text file is read, with no error pending, and this text is unread. -/
structure TextAhead (c : TurboCall) (text : Text) : Prop where
  clear : c.inOutRes = 0
  holds : c.toCall.clearerr.Holds text
  textual : c.file.recSize ≤ 0

variable {c : TurboCall} {text : Text}

theorem checkRead_eq (ahead : c.toCall.Ahead text) : c.checkRead = c := by
  rw [checkRead, tpTrapOnStreamError, ahead.ferror]
  rfl

section ReadingOn

variable {keep : Window → Bool} {kind : Char → Bool} {check : TurboCall → TurboCall}

/-- Reading on consumes what is to be kept and shows what stands behind it. -/
theorem advanceWhile_eq (ends : keep .eof = false) (kept : ∀ d, keep (.char d) = kind d)
    (calm : ∀ {now : TurboCall} {rest : Text}, now.toCall.Ahead rest → check now = now) {fuel : Nat}
    (shows : c.toCall.Shows text) (enough : text.length < fuel) :
    ∃ call : Call,
      advanceWhile keep check fuel c = (text.takeWhile kind, c.shared fun _ => call) ∧
      call.Shows (text.dropWhile kind) ∧ Call.Moved c.toCall call := by
  induction fuel generalizing c text with
  | zero => exact absurd enough (Nat.not_lt_zero _)
  | succ fuel induction =>
      rw [advanceWhile, shows.buf]
      cases text with
      | nil =>
          rw [IsoCall.windowOf, if_neg (by simp [ends])]
          exact ⟨c.toCall, rfl, shows, .refl _⟩
      | cons d rest =>
          rw [IsoCall.windowOf, kept]
          by_cases wanted : kind d
          · obtain ⟨char, showing, moved⟩ := shows.toAhead.advance
            obtain ⟨call, read, after, more⟩ :=
              @induction (c.shared fun _ => c.advance.2) rest showing
                (Nat.lt_of_succ_lt_succ enough)
            have checked : check { c with toCall := c.advance.2 } = c.shared fun _ => c.advance.2 :=
              calm showing.toAhead
            refine ⟨call, ?_, ?_, moved.trans more⟩
            · rw [if_pos wanted, List.takeWhile_cons_of_pos wanted]
              simp only [checked, read, char, List.head?_cons, Option.getD_some]
              rfl
            · rw [List.dropWhile_cons_of_pos wanted]
              exact after
          · rw [if_neg wanted, List.takeWhile_cons_of_neg wanted, List.dropWhile_cons_of_neg wanted]
            exact ⟨c.toCall, rfl, shows, .refl _⟩

theorem readWhile_eq (ends : keep .eof = false) (kept : ∀ d, keep (.char d) = kind d)
    (calm : ∀ {now : TurboCall} {rest : Text}, now.toCall.Ahead rest → check now = now)
    (shows : c.toCall.Shows text) :
    ∃ call : Call, c.readWhile keep check = (text.takeWhile kind, c.shared fun _ => call) ∧
      call.Shows (text.dropWhile kind) ∧ Call.Moved c.toCall call := by
  refine advanceWhile_eq ends kept calm shows ?_
  rw [bound, shows.toAhead.left]
  exact Nat.lt_succ_self _

end ReadingOn

/-! ### The entry points -/

/-- A file that can be used, with its stream in order and this text unread. -/
structure Ready (c : TurboCall) (text : Text) : Prop where
  clear : c.inOutRes = 0
  holds : c.toCall.Holds text
  textual : c.file.recSize ≤ 0

theorem Ready.reading (ready : c.Ready text) : c.TextAhead text :=
  ⟨ready.clear, ready.holds.clearerr.symm ▸ ready.holds, ready.textual⟩

/-- What reading on leaves can be read on. -/
theorem Ready.shows {rest : Text} {call : Call} (ready : c.Ready text) (shows : call.Shows rest)
    (moved : Call.Moved c.toCall call) : (c.shared fun _ => call).Ready rest := by
  obtain ⟨fp, buf, file⟩ := moved
  refine ⟨ready.clear, shows.holds, ?_⟩
  change call.file.recSize ≤ 0
  rw [file]
  exact ready.textual

theorem TextAhead.ready (reading : c.TextAhead text) : (c.shared Call.clearerr).Ready text := by
  refine ⟨reading.clear, reading.holds, ?_⟩
  change c.toCall.clearerr.file.recSize ≤ 0
  rw [Call.clearerr, Call.onStream]
  cases c.file.fp <;> exact reading.textual

theorem TextAhead.tpFileReady (reading : c.TextAhead text) :
    c.tpFileReady = (true, c.shared Call.clearerr) := by
  obtain ⟨stream, open_, -⟩ := reading.holds.stream
  have opened : c.file.fp.isNone = false := by
    rw [Call.clearerr, Call.onStream] at open_
    cases fp : c.file.fp with
    | none => simp [fp] at open_
    | some => rfl
  exact tpFileReady_of_clear reading.clear opened

theorem TextAhead.ifReady (reading : c.TextAhead text) (body : TurboCall → TurboCall) :
    c.ifReady body = body (c.shared Call.clearerr) := by
  rw [TurboCall.ifReady, reading.tpFileReady]

theorem TextAhead.ifReadyOr {α : Type} (reading : c.TextAhead text) (answer : α)
    (body : TurboCall → α × TurboCall) :
    c.ifReadyOr answer body = body (c.shared Call.clearerr) := by
  rw [TurboCall.ifReadyOr, reading.tpFileReady]

theorem Ready.ensurePrimed (ready : c.Ready text) :
    (c.shared Call.ensurePrimed).toCall.Shows text ∧ (c.shared Call.ensurePrimed).Ready text := by
  obtain ⟨shows, moved⟩ := ready.holds.ensurePrimed
  exact ⟨shows, ready.shows shows moved⟩

theorem Ready.tpTrapOnWrongDirection (ready : c.Ready text) :
    c.tpTrapOnWrongDirection false = c := by
  have readable := ready.holds.readable
  rw [TurboCall.tpTrapOnWrongDirection]
  cases direction : c.file.readable with
  | write => rw [direction] at readable; cases readable
  | read => simp
  | both => simp

/-- One character is passed. -/
theorem Ready.pass (ready : c.Ready text) :
    (c.shared fun call => call.advance.2).Ready text.tail ∧
      (c.shared fun call => call.advance.2).file.buf = IsoCall.windowOf text.tail := by
  obtain ⟨-, shows, moved⟩ := ready.holds.toAhead.advance
  exact ⟨ready.shows shows moved, shows.buf⟩

theorem Ready.unloadComponent (ready : c.Ready text) :
    (c.shared Call.unloadComponent).Ready text :=
  ⟨ready.clear, ⟨⟨ready.holds.stream, ready.holds.readable⟩, ready.holds.buf⟩, ready.textual⟩

/-- A text that is reset is read from its beginning. -/
theorem reading_reset {inode : Nat} (clear : c.inOutRes = 0) (textual : c.file.recSize ≤ 0)
    (named : c.file.name ≠ []) (granted : c.libc.refuses .read c.file.name = none)
    (entry : c.libc.entries c.file.name = .file inode) :
    c.plangTpReset.TextAhead (c.libc.contents inode) := by
  have untyped : ¬0 < c.file.recSize := Int.not_lt.mpr textual
  have opened : c.libc.fopen .read c.file.name =
      (some { target := .file inode, canRead := true, canWrite := false }, c.libc) := by
    rw [Libc.fopen, granted]
    simp only [entry, Request.truncates, Bool.false_eq_true, if_false, Libc.attach]
  have reset : c.plangTpReset =
      (c.shared Call.closeStream).opened
        { target := .file inode, canRead := true, canWrite := false } .read .fmInput := by
    simp [plangTpReset, tpSuppressedByPendingError, clear, shared, Call.closeStream, untyped, named,
      resetRead, opened, Libc.isDirectory]
  rw [reset]
  refine Ready.reading ⟨clear, ⟨⟨⟨_, rfl, rfl, rfl, rfl⟩, rfl⟩, .inl rfl⟩, textual⟩

end TurboCall

end Runtime

end Plang
