import Plang.Runtime.IsoFile

/-!
# What the entry points leave alone

Files are only ever added to the system, and an operation on an open stream changes no file but the
stream's.
-/

namespace Plang

open Stdio

namespace Stdio

/-- Every file that stands at a path has been created. -/
def Libc.Known (libc : Libc) : Prop :=
  ∀ path inode, libc.entries path = .file inode → inode < libc.next

/-- Files were added at most. -/
structure Libc.Grows (before after : Libc) : Prop where
  refuses : after.refuses = before.refuses
  faults : after.faults = before.faults
  entries : ∀ path inode, before.entries path = .file inode → after.entries path = .file inode
  next : before.next ≤ after.next
  known : before.Known → after.Known

namespace Libc

theorem Grows.refl (libc : Libc) : libc.Grows libc :=
  ⟨rfl, rfl, fun _ _ => id, Nat.le_refl _, id⟩

theorem Grows.trans {first second third : Libc} (head : first.Grows second)
    (tail : second.Grows third) : first.Grows third where
  refuses := tail.refuses.trans head.refuses
  faults := tail.faults.trans head.faults
  entries := fun path inode entry => tail.entries path inode (head.entries path inode entry)
  next := Nat.le_trans head.next tail.next
  known := tail.known ∘ head.known

/-- Only contents, positions and the number of the last error have changed. -/
theorem Grows.of_same {before after : Libc} (entries : after.entries = before.entries)
    (next : after.next = before.next) (refuses : after.refuses = before.refuses)
    (faults : after.faults = before.faults) : before.Grows after where
  refuses := refuses
  faults := faults
  entries := fun path inode entry => by rw [entries, entry]
  next := Nat.le_of_eq next.symm
  known := fun known path inode entry => by
    rw [entries] at entry
    rw [next]
    exact known path inode entry

/-- A file was created. -/
theorem grows_create (libc : Libc) : libc.Grows libc.create.2 where
  refuses := rfl
  faults := rfl
  entries := fun _ _ => id
  next := Nat.le_succ _
  known := fun known path inode entry => Nat.lt_succ_of_lt (known path inode entry)

/-- A file was created at a path where there was none. -/
theorem grows_create_at {libc : Libc} {path : Text} (absent : libc.entries path = .absent) :
    libc.Grows
      { libc.create.2 with entries := Function.update libc.entries path (.file libc.next) } where
  refuses := rfl
  faults := rfl
  entries := fun other inode entry => by
    have different : other ≠ path := by
      rintro rfl
      rw [absent] at entry
      cases entry
    simpa [different] using entry
  next := Nat.le_succ _
  known := fun known other inode entry => by
    by_cases same : other = path
    · subst same
      simp only [Function.update_self, Entry.file.injEq] at entry
      subst entry
      exact Nat.lt_succ_self _
    · simp only [ne_eq, same, not_false_eq_true, Function.update_of_ne] at entry
      exact Nat.lt_succ_of_lt (known other inode entry)

/-- The effect of an opening for writing: an empty file at the path. -/
structure Emptied (libc : Libc) (path : Text) (inode : Nat) (after : Libc) : Prop where
  grows : libc.Grows after
  contents : after.contents inode = []
  entry : after.entries path = .file inode
  created : libc.Known → inode < after.next
  others : ∀ other, other ≠ inode → after.contents other = libc.contents other

theorem fopen_write {libc after : Libc} {path : Text} {stream : Stream}
    (opened : libc.fopen .write path = (some stream, after)) :
    ∃ inode, stream = attach .write (.file inode) 0 ∧ libc.Emptied path inode after := by
  rw [fopen] at opened
  split at opened
  · cases opened
  · split at opened
    · rename_i absent
      simp only [Request.creates, if_true, Prod.mk.injEq, Option.some.injEq] at opened
      obtain ⟨rfl, rfl⟩ := opened
      exact ⟨libc.next, rfl, grows_create_at absent, by simp [create], by simp [create],
        fun _ => Nat.lt_succ_self _, fun other different => by simp [create, different]⟩
    · simp at opened
    · rename_i inode file
      simp only [Request.truncates, if_true, Prod.mk.injEq, Option.some.injEq] at opened
      obtain ⟨rfl, rfl⟩ := opened
      exact ⟨inode, rfl, .of_same rfl rfl rfl rfl, by simp, file, fun known => known path inode file,
        fun other different => by simp [different]⟩

/-- Opening for reading changes no file. -/
structure Untouched (before after : Libc) : Prop where
  grows : before.Grows after
  contents : after.contents = before.contents

theorem Untouched.refl (libc : Libc) : libc.Untouched libc := ⟨.refl libc, rfl⟩

theorem fopen_read (libc : Libc) (path : Text) : libc.Untouched (libc.fopen .read path).2 := by
  rw [fopen]
  split
  · exact ⟨.of_same rfl rfl rfl rfl, rfl⟩
  · split
    · exact ⟨.of_same rfl rfl rfl rfl, rfl⟩
    · exact .refl libc
    · exact .refl libc

/-- The contents of a file; one that has not been created holds nothing. -/
def held (libc : Libc) (inode : Nat) : Text := if inode < libc.next then libc.contents inode else []

theorem held_of_created {libc : Libc} {inode : Nat} (created : inode < libc.next) :
    libc.held inode = libc.contents inode :=
  if_pos created

theorem held_next (libc : Libc) : libc.held libc.next = [] := if_neg (Nat.lt_irrefl _)

/-- The effect of an opening in both directions: the file is at the path with what it held, and no
file has changed. -/
structure Opened (libc : Libc) (path : Text) (inode : Nat) (after : Libc) : Prop where
  grows : libc.Grows after
  entry : after.entries path = .file inode
  created : libc.Known → inode < after.next
  contents : libc.Known → after.contents inode = libc.held inode
  others : ∀ other, other < libc.next → after.contents other = libc.contents other

/-- A file opened after a look at the file system. -/
theorem Untouched.opened {libc between after : Libc} {path : Text} {inode : Nat}
    (untouched : libc.Untouched between) (next : between.next = libc.next)
    (opened : between.Opened path inode after) : libc.Opened path inode after where
  grows := untouched.grows.trans opened.grows
  entry := opened.entry
  created := fun known => opened.created (untouched.grows.known known)
  contents := fun known => by
    rw [opened.contents (untouched.grows.known known), held, held, next, untouched.contents]
  others := fun other old => by
    rw [opened.others other (by rwa [next]), untouched.contents]

theorem fopen_readUpdate {libc after : Libc} {path : Text} {stream : Stream}
    (opened : libc.fopen .readUpdate path = (some stream, after)) :
    ∃ inode size, stream = attach .readUpdate (.file inode) size ∧ libc.Opened path inode after := by
  rw [fopen] at opened
  split at opened
  · cases opened
  · split at opened
    · simp [Request.creates] at opened
    · simp at opened
    · rename_i inode file
      simp only [Request.truncates, Bool.false_eq_true, if_false, Prod.mk.injEq,
        Option.some.injEq] at opened
      obtain ⟨rfl, rfl⟩ := opened
      exact ⟨inode, _, rfl, .refl libc, file, fun known => known path inode file,
        fun known => (held_of_created (known path inode file)).symm, fun _ _ => rfl⟩

/-- Where a file cannot be opened in both directions though the system grants it, there is none. -/
theorem fopen_readUpdate_none {libc after : Libc} {path : Text}
    (granted : libc.refuses .readUpdate path = none)
    (opened : libc.fopen .readUpdate path = (none, after)) :
    libc.Untouched after ∧ after.next = libc.next ∧ ∀ inode, after.entries path ≠ .file inode := by
  rw [fopen, granted] at opened
  simp only at opened
  split at opened
  · rename_i absent
    simp only [Request.creates, Bool.false_eq_true, if_false, Prod.mk.injEq, true_and] at opened
    subst opened
    exact ⟨⟨.of_same rfl rfl rfl rfl, rfl⟩, rfl, by simp [absent]⟩
  · rename_i directory
    simp only [reduceCtorEq, if_false, Prod.mk.injEq, true_and] at opened
    subst opened
    exact ⟨⟨.of_same rfl rfl rfl rfl, rfl⟩, rfl, by simp [directory]⟩
  · simp [Request.truncates] at opened

theorem fopen_writeUpdate {libc after : Libc} {path : Text} {stream : Stream}
    (absent : ∀ inode, libc.entries path ≠ .file inode)
    (opened : libc.fopen .writeUpdate path = (some stream, after)) :
    stream = attach .writeUpdate (.file libc.next) 0 ∧ libc.Opened path libc.next after := by
  rw [fopen] at opened
  split at opened
  · cases opened
  · split at opened
    · rename_i nothing
      simp only [Request.creates, if_true, Prod.mk.injEq, Option.some.injEq] at opened
      obtain ⟨rfl, rfl⟩ := opened
      exact ⟨rfl, grows_create_at nothing, by simp [create], fun _ => Nat.lt_succ_self _,
        fun _ => by simp [create, held_next], fun other old => by simp [create, Nat.ne_of_lt old]⟩
    · simp at opened
    · rename_i inode file
      exact absurd file (absent inode)

theorem fopen_none {libc after : Libc} {request : Request} {path : Text}
    (opened : libc.fopen request path = (none, after)) : libc.Untouched after := by
  rw [fopen] at opened
  split at opened
  · simp only [Prod.mk.injEq, true_and] at opened
    subst opened
    exact ⟨.of_same rfl rfl rfl rfl, rfl⟩
  · split at opened
    · split at opened
      · simp at opened
      · simp only [Prod.mk.injEq, true_and] at opened
        subst opened
        exact ⟨.of_same rfl rfl rfl rfl, rfl⟩
    · split at opened
      · simp at opened
      · simp only [Prod.mk.injEq, true_and] at opened
        subst opened
        exact ⟨.of_same rfl rfl rfl rfl, rfl⟩
    · split at opened <;> simp at opened

theorem tmpfile_some {libc after : Libc} {stream : Stream}
    (opened : libc.tmpfile = (some stream, after)) :
    stream = attach .tmpfile (.file libc.next) 0 ∧ libc.Grows after ∧
      after.contents libc.next = [] ∧ libc.next < after.next ∧
      ∀ other, other < libc.next → after.contents other = libc.contents other := by
  rw [tmpfile] at opened
  split at opened
  · cases opened
  · simp only [create, Prod.mk.injEq, Option.some.injEq] at opened
    obtain ⟨rfl, rfl⟩ := opened
    exact ⟨rfl, grows_create libc, by simp, Nat.lt_succ_self _,
      fun other old => by simp [Nat.ne_of_lt old]⟩

theorem tmpfile_none {libc after : Libc} (opened : libc.tmpfile = (none, after)) :
    libc.Untouched after := by
  rw [tmpfile] at opened
  split at opened
  · simp only [Prod.mk.injEq, true_and] at opened
    subst opened
    exact ⟨.of_same rfl rfl rfl rfl, rfl⟩
  · cases opened

end Libc

/-! ### Streams on a file -/

namespace Libc

theorem fwrite_of_takes {libc : Libc} {stream : Stream} {inode : Nat}
    (target : stream.target = .file inode) (canWrite : stream.canWrite = true)
    (appends : stream.appends = false) (takes : libc.faults inode = none) (bytes : Text) :
    libc.fwrite stream bytes =
      (bytes.length,
        { libc with
          contents := Function.update libc.contents inode
            (overwrite (libc.contents inode) stream.pos bytes) },
        { stream with pos := stream.pos + bytes.length }) := by
  cases stream
  simp_all [fwrite]

theorem fwrite_of_refuses {libc : Libc} {stream : Stream} {inode : Nat} {errno : Int}
    (target : stream.target = .file inode) (canWrite : stream.canWrite = true)
    (refuses : libc.faults inode = some errno) (bytes : Text) :
    libc.fwrite stream bytes = (0, { libc with errno }, { stream with error := true }) := by
  cases stream
  simp_all [fwrite]

/-- Flushing only says whether the file could be written. -/
theorem fflush_untouched (libc : Libc) (stream : Stream) :
    libc.Untouched (libc.fflush stream).2.1 := by
  rw [fflush]
  split
  · split
    · exact ⟨.of_same rfl rfl rfl rfl, rfl⟩
    · exact .refl _
  · exact .refl _

theorem pos_fflush (libc : Libc) (stream : Stream) :
    (libc.fflush stream).2.2.pos = stream.pos := by
  rw [fflush]
  split
  · split <;> rfl
  · rfl

theorem contents_fgetc (libc : Libc) (stream : Stream) :
    (libc.fgetc stream).2.1.contents = libc.contents := by
  simp only [fgetc, fread, skip]
  split
  · split <;> rfl
  · rfl

theorem contents_ungetc (libc : Libc) (stream : Stream) (char : Char) :
    (libc.ungetc stream char).1.contents = libc.contents := by
  rw [ungetc]
  split <;> rfl

theorem fseek_file {libc : Libc} {stream : Stream} {inode : Nat}
    (target : stream.target = .file inode) (pos : Nat) :
    libc.fseek stream pos = (true, libc, { stream with pos }) := by
  rw [fseek, target]
  exact if_neg (Int.not_lt.mpr (Int.natCast_nonneg pos))

theorem fgetc_file {libc : Libc} {stream : Stream} {inode : Nat} {char : Char}
    (target : stream.target = .file inode) (canRead : stream.canRead = true)
    (next : (libc.contents inode)[stream.pos]? = some char) :
    libc.fgetc stream = (some char, libc, { stream with pos := stream.pos + 1 }) := by
  obtain ⟨inside, rfl⟩ := List.getElem?_eq_some_iff.mp next
  have rest : libc.unread stream =
      (libc.contents inode)[stream.pos] :: (libc.contents inode).drop (stream.pos + 1) := by
    simp only [unread, target]
    exact List.drop_eq_getElem_cons inside
  rw [fgetc, fread, if_pos canRead, rest]
  simp only [skip, target]
  rfl

end Libc

/-! ### Operations on a stream -/

/-- The part of a stream that no operation on it changes. -/
structure StreamKind where
  target : Target
  canRead : Bool
  canWrite : Bool
  appends : Bool

/-- The part of the stream that no operation changes. -/
def Stream.kind (stream : Stream) : StreamKind :=
  ⟨stream.target, stream.canRead, stream.canWrite, stream.appends⟩

/-- An operation on a stream changes no file but the stream's. -/
structure Gentle {α : Type} (use : Libc → Stream → α × Libc × Stream) : Prop where
  kind : ∀ (libc : Libc) (stream : Stream), (use libc stream).2.2.kind = stream.kind
  grows : ∀ (libc : Libc) (stream : Stream), libc.Grows (use libc stream).2.1
  others : ∀ (libc : Libc) (stream : Stream) (inode : Nat), stream.target ≠ .file inode →
    (use libc stream).2.1.contents inode = libc.contents inode

namespace Gentle

theorem clearerr : Gentle fun libc stream => ((), libc, { stream with error := false }) :=
  ⟨fun _ _ => rfl, fun libc _ => .refl libc, fun _ _ _ _ => rfl⟩

theorem fflush : Gentle Libc.fflush := by
  constructor
  · intro libc stream
    rw [Libc.fflush]
    split
    · split <;> rfl
    · rfl
  · intro libc stream
    rw [Libc.fflush]
    split
    · split <;> exact .of_same rfl rfl rfl rfl
    · exact .refl libc
  · intro libc stream inode other
    rw [Libc.fflush]
    split
    · split <;> rfl
    · rfl

theorem fseek (offset : Int) : Gentle fun libc stream => libc.fseek stream offset := by
  constructor
  · intro libc stream
    simp only [Libc.fseek]
    split
    · split <;> rfl
    · rfl
  · intro libc stream
    simp only [Libc.fseek]
    split
    · split <;> exact .of_same rfl rfl rfl rfl
    · exact .of_same rfl rfl rfl rfl
  · intro libc stream inode other
    simp only [Libc.fseek]
    split
    · split <;> rfl
    · rfl

theorem fgetc : Gentle Libc.fgetc := by
  constructor
  · intro libc stream
    simp only [Libc.fgetc, Libc.fread]
    split
    · simp only [Libc.skip]
      split <;> rfl
    · rfl
  · intro libc stream
    simp only [Libc.fgetc, Libc.fread]
    split
    · simp only [Libc.skip]
      split <;> exact .of_same rfl rfl rfl rfl
    · exact .of_same rfl rfl rfl rfl
  · intro libc stream inode other
    simp only [Libc.fgetc, Libc.fread]
    split
    · simp only [Libc.skip]
      split <;> rfl
    · rfl

theorem ungetc (char : Char) : Gentle fun libc stream => ((), libc.ungetc stream char) := by
  constructor
  · intro libc stream
    simp only [Libc.ungetc]
    split <;> rfl
  · intro libc stream
    simp only [Libc.ungetc]
    split <;> exact .of_same rfl rfl rfl rfl
  · intro libc stream inode other
    simp only [Libc.ungetc]
    split <;> rfl

theorem fwrite (bytes : Text) : Gentle fun libc stream => libc.fwrite stream bytes := by
  constructor
  · intro libc stream
    simp only [Libc.fwrite]
    split
    · split <;> rfl
    · split <;> rfl
    · rfl
  · intro libc stream
    simp only [Libc.fwrite]
    split
    · split <;> exact .of_same rfl rfl rfl rfl
    · split <;> exact .of_same rfl rfl rfl rfl
    · exact .of_same rfl rfl rfl rfl
  · intro libc stream inode other
    simp only [Libc.fwrite]
    split
    · split <;> rfl
    · rename_i own target _
      have different : inode ≠ own := fun same => other (same ▸ target)
      split
      · rfl
      · simp [different]
    · rfl

end Gentle

end Stdio

namespace Runtime

namespace IsoCall

/-- The target that the file's stream is attached to. -/
def target (c : IsoCall) : Option Target := c.file.fp.map Stream.target

/-- The runtime went about an open file: it is open as it was, and no other file has changed. -/
structure Moves (before after : IsoCall) : Prop where
  self : after.self = before.self
  writePaths : after.writePaths = before.writePaths
  bindings : after.bindings = before.bindings
  stopped : after.stopped = before.stopped
  binding : after.file.binding = before.file.binding
  kind : after.file.fp.map Stream.kind = before.file.fp.map Stream.kind
  grows : before.libc.Grows after.libc
  others : ∀ inode, before.target ≠ some (.file inode) →
    after.libc.contents inode = before.libc.contents inode

namespace Moves

theorem target {before after : IsoCall} (moves : Moves before after) :
    after.target = before.target := by
  have kinds := congrArg (Option.map StreamKind.target) moves.kind
  rwa [Option.map_map, Option.map_map] at kinds

theorem refl (c : IsoCall) : Moves c c := ⟨rfl, rfl, rfl, rfl, rfl, rfl, .refl _, fun _ _ => rfl⟩

theorem trans {first second third : IsoCall} (head : Moves first second)
    (tail : Moves second third) : Moves first third where
  self := tail.self.trans head.self
  writePaths := tail.writePaths.trans head.writePaths
  bindings := tail.bindings.trans head.bindings
  stopped := tail.stopped.trans head.stopped
  binding := tail.binding.trans head.binding
  kind := tail.kind.trans head.kind
  grows := head.grows.trans tail.grows
  others := fun inode other =>
    (tail.others inode (by rwa [head.target])).trans (head.others inode other)

/-- The file system was looked at. -/
theorem look (c : IsoCall) {libc : Libc} (untouched : c.libc.Untouched libc) :
    Moves c { c with libc } :=
  ⟨rfl, rfl, rfl, rfl, rfl, rfl, untouched.grows, fun inode _ => by rw [untouched.contents]⟩

/-- The window was changed. -/
theorem window (c : IsoCall) (change : PascalFile → PascalFile)
    (fp : (change c.file).fp = c.file.fp) (binding : (change c.file).binding = c.file.binding) :
    Moves c (c.withFile change) :=
  ⟨rfl, rfl, rfl, rfl, binding, congrArg (Option.map Stream.kind) fp, .refl _, fun _ _ => rfl⟩

/-- The stream was used. -/
theorem use {α : Type} (c : IsoCall) {default : α} {use : Libc → Stream → α × Libc × Stream}
    (gentle : Gentle use) : Moves c { c with toCall := (c.toCall.onStream default use).2 } := by
  rw [Call.onStream]
  split
  · exact refl c
  · rename_i stream fp
    exact
      { self := rfl
        writePaths := rfl
        bindings := rfl
        stopped := rfl
        binding := rfl
        kind := by simp [fp, gentle.kind]
        grows := gentle.grows c.libc stream
        others := fun inode other =>
          gentle.others c.libc stream inode (by simpa [IsoCall.target, fp] using other) }

theorem clearerr (c : IsoCall) : Moves c (c.shared Call.clearerr) := use c Gentle.clearerr

theorem fflush (c : IsoCall) : Moves c (c.shared fun call => call.fflush.2) := use c Gentle.fflush

theorem fseek (c : IsoCall) (offset : Int) : Moves c (c.shared fun call => (call.fseek offset).2) :=
  use c (Gentle.fseek offset)

theorem fgetc (c : IsoCall) : Moves c (c.shared fun call => call.fgetc.2) := use c Gentle.fgetc

theorem ungetc (c : IsoCall) (char : Char) : Moves c (c.shared fun call => call.ungetc char) :=
  use c (Gentle.ungetc char)

theorem fwrite (c : IsoCall) (bytes : Text) :
    Moves c (c.shared fun call => (call.fwrite bytes).2) :=
  use c (Gentle.fwrite bytes)

theorem goTo (c : IsoCall) (pos : Nat) : Moves c (c.goTo pos) := (fflush c).trans (fseek _ pos)

theorem put (c : IsoCall) (bytes : Text) : Moves c (c.put bytes) := by
  rw [IsoCall.put]
  split
  · exact refl c
  · exact fwrite c bytes

theorem prime (c : IsoCall) : Moves c (c.shared Call.prime) := by
  have read := fgetc c
  rw [shared, Call.prime]
  split
  · rename_i last after fgetc
    rw [shared, fgetc] at read
    exact read.trans
      (window { c with toCall := after } (fun file => { file with buf := .eof }) rfl rfl)
  · rename_i char after fgetc
    rw [shared, fgetc] at read
    exact (read.trans (ungetc _ char)).trans
      (window ({ c with toCall := after }.shared fun call => call.ungetc char)
        (fun file => { file with buf := .char char }) rfl rfl)

theorem peekLast (libc : Libc) (path : Text) : libc.Untouched (IsoCall.peekLast libc path).2 := by
  have untouched := Libc.fopen_read libc path
  rw [IsoCall.peekLast]
  split
  · rename_i after opened
    rwa [opened] at untouched
  · rename_i peek after opened
    rw [opened] at untouched
    split <;> exact untouched

theorem endLine (c : IsoCall) (last : Option Char) : Moves c (c.endLine last) := by
  cases last with
  | none => exact refl c
  | some char =>
      rw [IsoCall.endLine]
      split
      · exact refl c
      · exact fwrite c ['\n']

theorem closeNamedLine (c : IsoCall) (path : Text) : Moves c (c.closeNamedLine path) := by
  have untouched := peekLast c.libc path
  rw [IsoCall.closeNamedLine]
  split
  · rename_i libc peek
    rw [peek] at untouched
    exact look c untouched
  · rename_i last libc peek
    rw [peek] at untouched
    exact (look c untouched).trans (endLine _ last)

theorem closeOwnLine (c : IsoCall) (pos : Nat) : Moves c (c.closeOwnLine pos) := by
  have sought := fseek c ((pos : Int) - 1)
  rw [IsoCall.closeOwnLine]
  split
  · rename_i call fseek
    rwa [shared, fseek] at sought
  · rename_i call fseek
    rw [shared, fseek] at sought
    exact ((sought.trans (fgetc _)).trans (endLine _ _)).trans (clearerr _)

/-- Ending the last line goes about the file that is being written, and no other. -/
theorem finishText (c : IsoCall) (isText : Bool) : Moves c (c.finishText isText) := by
  rw [IsoCall.finishText]
  split
  · rw [closeFinalLine]
    split
    · exact refl c
    · simp only
      split
      · exact fflush c
      · exact fflush c
      · split
        · exact (fflush c).trans (closeNamedLine _ _)
        · exact (fflush c).trans (closeOwnLine _ _)
  · exact refl c

end Moves

end IsoCall

end Runtime

end Plang
