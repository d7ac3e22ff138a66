import Plang.Runtime.IsoFrame

/-!
# A file that is being written

From the opening that lets a file be written until the next operation that ends it, the file holds
what it held at the opening and what was written since.
-/

namespace Plang

namespace Runtime

open Stdio

/-- A text with its last line ended. -/
def lineEnded (text : Text) : Text :=
  if text = [] ∨ text.getLast? = some '\n' then text else text ++ ['\n']

theorem lineEnded_of_ended {text : Text} (ended : text.getLast? = some '\n') :
    lineEnded text = text :=
  if_pos (.inr ended)

theorem lineEnded_of_begun {text : Text} {last : Char} (ends : text.getLast? = some last)
    (begun : last ≠ '\n') : lineEnded text = text ++ ['\n'] := by
  have some_text : text ≠ [] := by
    rintro rfl
    cases ends
  exact if_neg (by simp [some_text, ends, begun])

/-- A text whose last line has been ended needs no further marker. -/
theorem lineEnded_lineEnded (text : Text) : lineEnded (lineEnded text) = lineEnded text := by
  by_cases complete : text = [] ∨ text.getLast? = some '\n'
  · rw [lineEnded, lineEnded, if_pos complete, if_pos complete]
  · apply lineEnded_of_ended
    rw [lineEnded, if_neg complete, List.getLast?_append]
    rfl

/-- Bytes written in the middle of a text keep what stands before them. -/
theorem overwrite_append (front rest bytes : Text) :
    Libc.overwrite (front ++ rest) front.length bytes =
      front ++ (bytes ++ rest.drop bytes.length) := by
  have inside : front.length - (front ++ rest).length = 0 := by simp
  rw [Libc.overwrite, inside, List.take_left, List.drop_append, List.drop_of_length_le
    (Nat.le_add_right _ _), Nat.add_sub_cancel_left]
  simp

/-- The openings that let a file be written. -/
inductive OpenMode where
  | rewrite
  | extend
  | update
  deriving DecidableEq

/-- A file that is being written. -/
structure Session where
  /-- How it was opened. -/
  mode : OpenMode
  /-- The file. -/
  inode : Nat
  /-- What it held at the opening, kept or truncated. -/
  held : Text
  /-- The text written since the opening. -/
  written : Text

namespace Session

/-- The contents that the file should have: an update writes over the front, others at the end. -/
def expected (session : Session) : Text :=
  match session.mode with
  | .rewrite | .extend => session.held ++ session.written
  | .update => session.written ++ session.held.drop session.written.length

/-- The place of the next byte. -/
def place (session : Session) : Nat :=
  match session.mode with
  | .rewrite | .extend => (session.held ++ session.written).length
  | .update => session.written.length

/-- More has been written. -/
def write (session : Session) (bytes : Text) : Session :=
  { session with written := session.written ++ bytes }

/-- The last line has been ended. -/
def ended (session : Session) : Session :=
  { session with written := lineEnded session.written }

/-- The direction of a file that was opened so. -/
def readable (session : Session) : Readable :=
  match session.mode with
  | .rewrite => .write
  | .extend | .update => .both

theorem place_write (session : Session) (bytes : Text) :
    (session.write bytes).place = session.place + bytes.length := by
  obtain ⟨mode, inode, held, written⟩ := session
  cases mode <;> simp [place, write, Nat.add_assoc]

/-- Bytes written at the place continue the session. -/
theorem overwrite_expected (session : Session) (bytes : Text) :
    Libc.overwrite session.expected session.place bytes = (session.write bytes).expected := by
  obtain ⟨mode, inode, held, written⟩ := session
  cases mode
  case rewrite => simpa [expected, place, write] using overwrite_append (held ++ written) [] bytes
  case extend => simpa [expected, place, write] using overwrite_append (held ++ written) [] bytes
  case update =>
      simpa [expected, place, write] using
        overwrite_append written (held.drop written.length) bytes

end Session

theorem Call.onStream_of_open {α : Type} {c : Call} {stream : Stream}
    (opened : c.file.fp = some stream) (default : α) (use : Libc → Stream → α × Libc × Stream) :
    c.onStream default use =
      ((use c.libc stream).1,
        { libc := (use c.libc stream).2.1
          file := { c.file with fp := some (use c.libc stream).2.2 } }) := by
  rw [onStream, opened]

/-- A file can be looked at: along its path, or where it has none through the stream. -/
def CanLook (libc : Libc) (path : Option Text) (inode : Nat) (stream : Stream) : Prop :=
  match path with
  | some path => libc.entries path = .file inode
  | none => stream.canRead = true

theorem CanLook.mono {libc after : Libc} {path : Option Text} {inode : Nat}
    {stream moved : Stream} (can : CanLook libc path inode stream) (grows : libc.Grows after)
    (kind : moved.kind = stream.kind) : CanLook after path inode moved := by
  cases path with
  | none => exact (congrArg StreamKind.canRead kind).trans can
  | some path => exact grows.entries _ _ can

/-- The file is being written: through a stream at the session's place, on the session's file. -/
structure InSession (c : IsoCall) (session : Session) (stream : Stream) : Prop where
  fp : c.file.fp = some stream
  target : stream.target = .file session.inode
  canWrite : stream.canWrite = true
  appends : stream.appends = false
  pos : stream.pos = session.place
  contents : c.libc.contents session.inode = session.expected
  created : session.inode < c.libc.next
  readable : c.file.readable = session.readable
  /-- A file that has taken bytes takes more. -/
  taken : session.written ≠ [] → c.libc.faults session.inode = none
  /-- A rewritten file held nothing. -/
  truncated : session.mode = .rewrite → session.held = []
  /-- A rewritten file can be looked at: along its path, or through the stream itself. -/
  path : session.mode = .rewrite → CanLook c.libc c.findWritePath session.inode stream

/-- The last byte of a file that is at a path. -/
theorem peekLast_file {libc : Libc} {path : Text} {inode : Nat}
    (reads : libc.refuses .read path = none) (entry : libc.entries path = .file inode) :
    IsoCall.peekLast libc path = (some (libc.contents inode).getLast?, libc) := by
  have opened : libc.fopen .read path =
      (some (Libc.attach .read (.file inode) (libc.contents inode).length), libc) := by
    simp [Libc.fopen, reads, entry, Request.truncates]
  rw [IsoCall.peekLast, opened]
  simp only [Libc.sizeOf, Libc.attach]
  split
  · rename_i size length
    have last : (libc.contents inode)[size]? = (libc.contents inode).getLast? := by
      rw [List.getLast?_eq_getElem?, Option.some.inj length, Nat.succ_sub_one]
    have some_last : ∃ char, (libc.contents inode)[size]? = some char :=
      ⟨_, List.getElem?_eq_getElem (by rw [Option.some.inj length]; exact Nat.lt_succ_self _)⟩
    obtain ⟨char, next⟩ := some_last
    rw [Libc.fgetc_file rfl rfl next, ← last, next]
  · rename_i length
    rw [List.eq_nil_of_length_eq_zero (Option.some.inj length)]
    rfl
  · contradiction

namespace InSession

variable {c : IsoCall} {session : Session} {stream : Stream}

theorem stop (writing : InSession c session stream) : InSession c.stop session stream :=
  ⟨writing.fp, writing.target, writing.canWrite, writing.appends, writing.pos, writing.contents,
    writing.created, writing.readable, writing.taken, writing.truncated, writing.path⟩

/-- The error indicator says nothing about the session. -/
theorem indicate (writing : InSession c session stream) {libc : Libc} {indicated : Stream}
    (untouched : c.libc.Untouched libc) (kind : indicated.kind = stream.kind)
    (pos : indicated.pos = stream.pos) :
    InSession { c with toCall := ⟨libc, { c.file with fp := some indicated }⟩ } session
      indicated where
  fp := rfl
  target := (congrArg StreamKind.target kind).trans writing.target
  canWrite := (congrArg StreamKind.canWrite kind).trans writing.canWrite
  appends := (congrArg StreamKind.appends kind).trans writing.appends
  pos := pos.trans writing.pos
  contents := (congrFun untouched.contents session.inode).trans writing.contents
  created := Nat.lt_of_lt_of_le writing.created untouched.grows.next
  readable := writing.readable
  taken := fun some_bytes => by
    rw [untouched.grows.faults]
    exact writing.taken some_bytes
  truncated := writing.truncated
  path := fun rewrite => (writing.path rewrite).mono untouched.grows kind

/-- Clearing the error indicator. -/
theorem clearerr (writing : InSession c session stream) :
    InSession (c.shared Call.clearerr) session { stream with error := false } := by
  rw [IsoCall.shared, Call.clearerr, Call.onStream_of_open writing.fp]
  exact writing.indicate (.refl _) rfl rfl

/-- Flushing the stream. -/
theorem fflush (writing : InSession c session stream) :
    ∃ flushed, InSession (c.shared fun call => call.fflush.2) session flushed := by
  rw [IsoCall.shared, Call.fflush, Call.onStream_of_open writing.fp]
  exact ⟨_, writing.indicate (Libc.fflush_untouched _ _) (Gentle.fflush.kind _ _)
    (Libc.pos_fflush _ _)⟩

/-- A stream that takes bytes continues the session. -/
theorem fwrite (writing : InSession c session stream) (bytes : Text)
    (takes : c.libc.faults session.inode = none) :
    InSession (c.shared fun call => (call.fwrite bytes).2) (session.write bytes)
      { stream with pos := stream.pos + bytes.length } := by
  rw [IsoCall.shared, Call.fwrite, Call.onStream_of_open writing.fp,
    Libc.fwrite_of_takes writing.target writing.canWrite writing.appends takes]
  exact
    { fp := rfl
      target := writing.target
      canWrite := writing.canWrite
      appends := writing.appends
      pos := by rw [session.place_write, ← writing.pos]
      contents := by
        simp only [Session.write, Function.update_self]
        rw [writing.contents, writing.pos, session.overwrite_expected]
        rfl
      created := writing.created
      readable := writing.readable
      taken := fun _ => takes
      truncated := writing.truncated
      path := writing.path }

/-- A stream that refuses bytes says so. -/
theorem fwrite_refused (writing : InSession c session stream) (bytes : Text) {errno : Int}
    (refuses : c.libc.faults session.inode = some errno) :
    ∃ refused, InSession (c.shared fun call => (call.fwrite bytes).2) session refused ∧
      refused.error = true := by
  rw [IsoCall.shared, Call.fwrite, Call.onStream_of_open writing.fp,
    Libc.fwrite_of_refuses writing.target writing.canWrite refuses]
  exact ⟨_, writing.indicate ⟨.of_same rfl rfl rfl rfl, rfl⟩ rfl rfl, rfl⟩

/-- A rewritten file holds what was written. -/
theorem contents_of_rewrite (writing : InSession c session stream)
    (rewrite : session.mode = .rewrite) : c.libc.contents session.inode = session.written := by
  rw [writing.contents, Session.expected, rewrite]
  simp [writing.truncated rewrite]

/-- The next byte goes behind what was written. -/
theorem pos_of_rewrite (writing : InSession c session stream)
    (rewrite : session.mode = .rewrite) : stream.pos = session.written.length := by
  rw [writing.pos, Session.place, rewrite]
  simp [writing.truncated rewrite]

/-- A begun line is ended. -/
theorem endLine (writing : InSession c session stream) {last : Char}
    (ends : session.written.getLast? = some last) :
    ∃ moved, InSession (c.endLine (some last)) session.ended moved := by
  have some_text : session.written ≠ [] := by
    rintro nothing
    rw [nothing] at ends
    cases ends
  rw [IsoCall.endLine]
  split
  · rename_i marker
    subst marker
    refine ⟨stream, ?_⟩
    rwa [Session.ended, lineEnded_of_ended ends]
  · rename_i begun
    rw [Session.ended, lineEnded_of_begun ends begun]
    exact ⟨_, writing.fwrite ['\n'] (writing.taken some_text)⟩

/-- The last line of a file with a path is ended. -/
theorem closeNamedLine (writing : InSession c session stream) (rewrite : session.mode = .rewrite)
    {path : Text} (reads : c.libc.refuses .read path = none)
    (entry : c.libc.entries path = .file session.inode) (some_text : session.written ≠ []) :
    ∃ moved, InSession (c.closeNamedLine path) session.ended moved := by
  have contents := writing.contents_of_rewrite rewrite
  rw [IsoCall.closeNamedLine, peekLast_file reads entry, contents,
    List.getLast?_eq_some_getLast some_text]
  exact writing.endLine (List.getLast?_eq_some_getLast some_text)

/-- The last line of a file that can be read through its own stream is ended. -/
theorem closeOwnLine (writing : InSession c session stream) (rewrite : session.mode = .rewrite)
    (canRead : stream.canRead = true) {before : Nat} (pos : stream.pos = before + 1) :
    ∃ moved, InSession (c.closeOwnLine (before + 1)) session.ended moved := by
  have length : session.written.length = before + 1 := (writing.pos_of_rewrite rewrite).symm.trans pos
  have inside : before < session.written.length := by simp [length]
  have ends : session.written.getLast? = some (session.written[before]) := by
    rw [List.getLast?_eq_getElem?, length, Nat.succ_sub_one, List.getElem?_eq_getElem inside]
  have sought : c.fseek (((before + 1 : Nat) : Int) - 1) =
      (true, { libc := c.libc, file := { c.file with fp := some { stream with pos := before } } }) := by
    rw [Call.fseek, Call.onStream_of_open writing.fp, Int.natCast_add, Int.natCast_one,
      Int.add_sub_cancel, Libc.fseek_file writing.target]
  have next : (c.libc.contents session.inode)[before]? = some (session.written[before]) := by
    rw [writing.contents_of_rewrite rewrite, List.getElem?_eq_getElem inside]
  have read : c.libc.fgetc { stream with pos := before } =
      (some (session.written[before]), c.libc, { stream with pos := before + 1 }) :=
    Libc.fgetc_file writing.target canRead next
  rw [IsoCall.closeOwnLine, sought]
  simp only [Call.fgetc, Call.onStream, read]
  have back :
      InSession
        { c with
          toCall :=
            { libc := c.libc
              file := { c.file with fp := some { stream with pos := before + 1 } } } }
        session { stream with pos := before + 1 } :=
    writing.indicate (.refl c.libc) rfl pos.symm
  obtain ⟨moved, ended⟩ := back.endLine ends
  exact ⟨_, ended.clearerr⟩

/-- Ending the last line of a rewritten file. -/
theorem finishText (writing : InSession c session stream) (rewrite : session.mode = .rewrite)
    (reads : ∀ path, c.libc.refuses .read path = none) :
    ∃ moved, InSession (c.finishText true) session.ended moved := by
  have forWriting : ¬(c.file.fp.isNone || c.file.readable.nonzero) = true := by
    rw [writing.fp, writing.readable, Session.readable, rewrite]
    exact Bool.false_ne_true
  obtain ⟨flushed, writing⟩ := writing.fflush
  have moves := IsoCall.Moves.fflush c
  rw [IsoCall.finishText, if_pos rfl, IsoCall.closeFinalLine, if_neg forWriting]
  generalize (c.shared fun call => call.fflush.2) = c' at *
  have tell : c'.ftell = some session.written.length := by
    rw [Call.ftell, writing.fp, ← writing.pos_of_rewrite rewrite]
    simp only [Option.bind_some, Libc.ftell, writing.target]
  simp only [tell]
  rcases length : session.written.length with _ | before
  · have nothing := List.eq_nil_of_length_eq_zero length
    refine ⟨flushed, ?_⟩
    rwa [Session.ended, nothing, lineEnded, if_pos (.inl rfl), ← nothing]
  · have some_text : session.written ≠ [] := by
      rintro nothing
      rw [nothing] at length
      cases length
    have reached := writing.path rewrite
    simp only
    split
    · rename_i path found
      rw [found] at reached
      exact writing.closeNamedLine rewrite (by rw [moves.grows.refuses, reads]) reached some_text
    · rename_i found
      rw [found] at reached
      exact writing.closeOwnLine rewrite reached ((writing.pos_of_rewrite rewrite).trans length)

/-- What a rewritten file holds once its last line has been ended. -/
theorem contents_finishText (writing : InSession c session stream)
    (rewrite : session.mode = .rewrite) (reads : ∀ path, c.libc.refuses .read path = none) :
    (c.finishText true).libc.contents session.inode = lineEnded session.expected := by
  obtain ⟨moved, ended⟩ := writing.finishText rewrite reads
  have written := ended.contents_of_rewrite rewrite
  rw [← writing.contents, writing.contents_of_rewrite rewrite]
  exact written

/-- A file that is open in both directions is left as it is. -/
theorem finishText_of_both (writing : InSession c session stream) (both : session.mode ≠ .rewrite) :
    c.finishText true = c := by
  have readable : c.file.readable = .both := by
    rw [writing.readable, Session.readable]
    cases mode : session.mode
    · exact absurd mode both
    · rfl
    · rfl
  rw [IsoCall.finishText, if_pos rfl, IsoCall.closeFinalLine, readable]
  exact if_pos (Bool.or_true _)

end InSession

end Runtime

end Plang
