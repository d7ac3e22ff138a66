import Plang.Basic.Text

/-!
# The C library's files and streams

What the runtime uses of the C library and the operating system: paths, the contents of files, and
streams over them.  The system may refuse any request, and a file or standard output may refuse to be
written; the standard streams are not positioned.
-/

namespace Plang

namespace Stdio

/-- Error numbers of the operating system. -/
def ENOENT : Int := 2
def EINTR : Int := 4
def EIO : Int := 5
def EBADF : Int := 9
def EAGAIN : Int := 11
def EACCES : Int := 13
def EBUSY : Int := 16
def EEXIST : Int := 17
def ENOTDIR : Int := 20
def EISDIR : Int := 21
def EINVAL : Int := 22
def ENFILE : Int := 23
def EMFILE : Int := 24
def ENOSPC : Int := 28
def ESPIPE : Int := 29
def EROFS : Int := 30
def EPIPE : Int := 32
def ENAMETOOLONG : Int := 36
def ENOTEMPTY : Int := 39

/-- The requests to the system about a path. -/
inductive Request where
  | access
  | read
  | write
  | append
  | readUpdate
  | writeUpdate
  | writeOnly
  | fdopen
  | remove
  | rename
  | tmpfile
  deriving DecidableEq

/-- A path that is not there is created. -/
def Request.creates : Request → Bool
  | .write | .writeUpdate | .append => true
  | _ => false

/-- The requests that throw away the contents. -/
def Request.truncates : Request → Bool
  | .write | .writeUpdate => true
  | _ => false

/-- The entries that a path can have. -/
inductive Entry where
  | absent
  | directory
  | file (inode : Nat)
  deriving DecidableEq

/-- The targets of a stream. -/
inductive Target where
  | stdin
  | stdout
  | directory
  | file (inode : Nat)
  deriving DecidableEq

/-- A stream. -/
structure Stream where
  /-- The target that its bytes come from or go to. -/
  target : Target
  /-- It was opened for reading. -/
  canRead : Bool
  /-- It was opened for writing. -/
  canWrite : Bool
  /-- Everything is written at the end of the file. -/
  appends : Bool := false
  /-- The position. -/
  pos : Nat := 0
  /-- The error indicator. -/
  error : Bool := false
  deriving DecidableEq

/-- Standard input. -/
def Stream.stdin : Stream := { target := .stdin, canRead := true, canWrite := false }

/-- Standard output. -/
def Stream.stdout : Stream := { target := .stdout, canRead := false, canWrite := true }

/-- The stream is standard output. -/
def Stream.isStdout (stream : Stream) : Bool := stream.target == .stdout

/-- The system as the C library sees it. -/
structure Libc where
  /-- The entries of the paths. -/
  entries : Text → Entry := fun _ => .absent
  /-- The bytes of every file. -/
  contents : Nat → Text := fun _ => []
  /-- The next file to be created. -/
  next : Nat := 0
  /-- Why the system refuses a request. -/
  refuses : Request → Text → Option Int := fun _ _ => none
  /-- Why a file cannot be written. -/
  faults : Nat → Option Int := fun _ => none
  /-- Why standard output cannot be written. -/
  outputFault : Option Int := none
  /-- The text that standard input has not delivered yet. -/
  input : Text := []
  /-- The text that standard output has been given. -/
  output : Text := []
  /-- The number of the last error. -/
  errno : Int := 0

namespace Libc

/-- A stream just attached to a file. -/
def attach (request : Request) (target : Target) (size : Nat) : Stream :=
  match request with
  | .append => { target, canRead := false, canWrite := true, appends := true, pos := size }
  | .write | .writeOnly => { target, canRead := false, canWrite := true }
  | .readUpdate | .writeUpdate | .tmpfile => { target, canRead := true, canWrite := true }
  | _ => { target, canRead := true, canWrite := false }

/-- Make an empty file. -/
def create (libc : Libc) : Nat × Libc :=
  (libc.next,
    { libc with contents := Function.update libc.contents libc.next [], next := libc.next + 1 })

/-- `fopen`, and `open` with `O_WRONLY`. -/
def fopen (libc : Libc) (request : Request) (path : Text) : Option Stream × Libc :=
  match libc.refuses request path with
  | some errno => (none, { libc with errno })
  | none =>
      match libc.entries path with
      | .absent =>
          if request.creates then
            let (inode, created) := libc.create
            (some (attach request (.file inode) 0),
              { created with entries := Function.update libc.entries path (.file inode) })
          else
            (none, { libc with errno := ENOENT })
      | .directory =>
          if request = .read then (some (attach request .directory 0), libc)
          else (none, { libc with errno := EISDIR })
      | .file inode =>
          if request.truncates then
            (some (attach request (.file inode) 0),
              { libc with contents := Function.update libc.contents inode [] })
          else
            (some (attach request (.file inode) (libc.contents inode).length), libc)

/-- `fdopen`; whether it succeeds. -/
def fdopen (libc : Libc) (path : Text) : Bool × Libc :=
  match libc.refuses .fdopen path with
  | some errno => (false, { libc with errno })
  | none => (true, libc)

/-- `tmpfile`. -/
def tmpfile (libc : Libc) : Option Stream × Libc :=
  match libc.refuses .tmpfile [] with
  | some errno => (none, { libc with errno })
  | none =>
      let (inode, created) := libc.create
      (some (attach .tmpfile (.file inode) 0), created)

/-- `access` with `F_OK`; whether the path is there. -/
def access (libc : Libc) (path : Text) : Bool × Libc :=
  match libc.refuses .access path with
  | some errno => (false, { libc with errno })
  | none =>
      if libc.entries path = .absent then (false, { libc with errno := ENOENT }) else (true, libc)

/-- `remove`; whether it succeeds. -/
def remove (libc : Libc) (path : Text) : Bool × Libc :=
  match libc.refuses .remove path with
  | some errno => (false, { libc with errno })
  | none =>
      if libc.entries path = .absent then (false, { libc with errno := ENOENT })
      else (true, { libc with entries := Function.update libc.entries path .absent })

/-- `rename`; whether it succeeds. -/
def rename (libc : Libc) (path newPath : Text) : Bool × Libc :=
  match libc.refuses .rename path with
  | some errno => (false, { libc with errno })
  | none =>
      if libc.entries path = .absent then (false, { libc with errno := ENOENT })
      else
        (true, { libc with
          entries := Function.update (Function.update libc.entries path .absent) newPath
            (libc.entries path) })

/-- `fstat` finds a directory. -/
def isDirectory (stream : Stream) : Bool := stream.target == .directory

/-- The bytes reading would deliver from here to the end of the file. -/
def unread (libc : Libc) (stream : Stream) : Text :=
  match stream.target with
  | .stdin => libc.input
  | .file inode => (libc.contents inode).drop stream.pos
  | _ => []

/-- Step over bytes. -/
def skip (libc : Libc) (stream : Stream) (count : Nat) : Libc × Stream :=
  match stream.target with
  | .stdin => ({ libc with input := libc.input.drop count }, stream)
  | _ => (libc, { stream with pos := stream.pos + count })

/-- `fread`: up to `count` bytes. -/
def fread (libc : Libc) (stream : Stream) (count : Nat) : Text × Libc × Stream :=
  if stream.canRead then
    let bytes := (libc.unread stream).take count
    (bytes, libc.skip stream bytes.length)
  else
    ([], { libc with errno := EBADF }, { stream with error := true })

/-- `fgetc`. -/
def fgetc (libc : Libc) (stream : Stream) : Option Char × Libc × Stream :=
  let (bytes, libc, stream) := libc.fread stream 1
  (bytes.head?, libc, stream)

/-- `ungetc` of the byte that has just been read. -/
def ungetc (libc : Libc) (stream : Stream) (c : Char) : Libc × Stream :=
  match stream.target with
  | .stdin => ({ libc with input := c :: libc.input }, stream)
  | _ => (libc, { stream with pos := stream.pos - 1 })

/-- A byte that is read is the next unread one, and can be given back. -/
theorem unread_of_fgetc {libc after : Libc} {stream moved : Stream} {c : Char}
    (read : libc.fgetc stream = (some c, after, moved)) :
    libc.unread stream = c :: after.unread moved ∧
      (after.ungetc moved c).1.unread (after.ungetc moved c).2 = c :: after.unread moved := by
  rcases readable : stream.canRead
  · simp [fgetc, fread, readable] at read
  · rcases target : stream.target with _ | _ | _ | inode
    · rcases input : libc.input with _ | ⟨first, rest⟩
      · simp [fgetc, fread, readable, unread, target, input] at read
      · simp [fgetc, fread, readable, unread, target, input, skip] at read
        obtain ⟨rfl, rfl, rfl⟩ := read
        simp [unread, target, input, ungetc]
    · simp [fgetc, fread, readable, unread, target] at read
    · simp [fgetc, fread, readable, unread, target] at read
    · rcases rest : (libc.contents inode).drop stream.pos with _ | ⟨first, later⟩
      · simp [fgetc, fread, readable, unread, target, rest] at read
      · simp [fgetc, fread, readable, unread, target, rest, skip] at read
        obtain ⟨rfl, rfl, rfl⟩ := read
        have next : (libc.contents inode).drop (stream.pos + 1) = later := by
          rw [← List.drop_drop, rest]
          rfl
        simp [unread, target, rest, ungetc, next]

theorem skip_zero (libc : Libc) (stream : Stream) : libc.skip stream 0 = (libc, stream) := by
  rw [skip]
  split <;> rfl

/-- Where nothing is read, nothing can be read afterwards. -/
theorem fgetc_of_fgetc_none {libc after : Libc} {stream moved : Stream}
    (read : libc.fgetc stream = (none, after, moved)) : (after.fgetc moved).1 = none := by
  rcases readable : stream.canRead
  · simp only [fgetc, fread, readable, Bool.false_eq_true, if_false, Prod.mk.injEq] at read
    obtain ⟨-, rfl, rfl⟩ := read
    simp [fgetc, fread]
  · have empty : libc.unread stream = [] := by
      rcases unread : libc.unread stream with _ | ⟨c, rest⟩
      · rfl
      · simp [fgetc, fread, readable, unread] at read
    have same : libc.fgetc stream = (none, libc, stream) := by
      simp [fgetc, fread, readable, empty, skip_zero]
    cases same.symm.trans read
    rw [same]

/-- A text with bytes written at a position; a gap is filled with zeros. -/
def overwrite (text : Text) (pos : Nat) (bytes : Text) : Text :=
  text.take pos ++ List.replicate (pos - text.length) '\x00' ++ bytes ++
    text.drop (pos + bytes.length)

/-- `fwrite`; all the bytes are taken or none. -/
def fwrite (libc : Libc) (stream : Stream) (bytes : Text) : Nat × Libc × Stream :=
  match stream.target, stream.canWrite with
  | .stdout, _ =>
      match libc.outputFault with
      | some errno => (0, { libc with errno }, { stream with error := true })
      | none => (bytes.length, { libc with output := libc.output ++ bytes }, stream)
  | .file inode, true =>
      match libc.faults inode with
      | some errno => (0, { libc with errno }, { stream with error := true })
      | none =>
          let pos := if stream.appends then (libc.contents inode).length else stream.pos
          (bytes.length,
            { libc with
              contents := Function.update libc.contents inode
                (overwrite (libc.contents inode) pos bytes) },
            { stream with pos := pos + bytes.length })
  | _, _ => (0, { libc with errno := EBADF }, { stream with error := true })

/-- `setvbuf` of a stream that is open, when `ahead` of its bytes have been read ahead.  They go with
the buffer that the stream had, unless the system can go back to them. -/
def setvbuf (libc : Libc) (stream : Stream) (ahead : Nat) : Libc :=
  match stream.target with
  | .stdin => { libc with input := libc.input.drop ahead }
  | _ => libc

/-- `ftell`; a standard stream has no position. -/
def ftell (stream : Stream) : Option Nat :=
  match stream.target with
  | .file _ => some stream.pos
  | _ => none

/-- `fseek` to an offset from the start; whether it succeeds. -/
def fseek (libc : Libc) (stream : Stream) (offset : Int) : Bool × Libc × Stream :=
  match stream.target with
  | .file _ =>
      if offset < 0 then (false, { libc with errno := EINVAL }, stream)
      else (true, libc, { stream with pos := offset.toNat })
  | _ => (false, { libc with errno := ESPIPE }, stream)

/-- The size of the file behind a stream. -/
def sizeOf (libc : Libc) (stream : Stream) : Option Nat :=
  match stream.target with
  | .file inode => some (libc.contents inode).length
  | _ => none

/-- `fflush`; whether it succeeds. -/
def fflush (libc : Libc) (stream : Stream) : Bool × Libc × Stream :=
  match stream.target with
  | .file inode =>
      match stream.canWrite, libc.faults inode with
      | true, some errno => (false, { libc with errno }, { stream with error := true })
      | _, _ => (true, libc, stream)
  | _ => (true, libc, stream)

/-- `ftruncate`; whether it succeeds. -/
def ftruncate (libc : Libc) (stream : Stream) (size : Nat) : Bool × Libc :=
  match stream.target, stream.canWrite with
  | .file inode, true =>
      (true, { libc with
        contents := Function.update libc.contents inode
          (overwrite ((libc.contents inode).take size) size []) })
  | _, _ => (false, { libc with errno := EINVAL })

end Libc

end Stdio

end Plang
