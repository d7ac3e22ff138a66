import Plang.Runtime.WritingSession

/-!
# What an opening leaves

An opening that succeeds begins a session of writing, or lets the file be read.  Of the files that
were there, only the one that is rewritten changes.
-/

namespace Plang

namespace Runtime

open Stdio

namespace IsoCall

/-! ## The tables -/

/-- Remembering a path changes nothing but the table of paths. -/
theorem setWritePath_frame (c : IsoCall) (name : Text) :
    ∃ writePaths, c.setWritePath name = { c with writePaths } := by
  rw [setWritePath]
  split
  · exact ⟨_, rfl⟩
  · split
    · exact ⟨_, rfl⟩
    · exact ⟨_, rfl⟩

/-- Where there is room, the path is remembered. -/
theorem findWritePath_setWritePath {c : IsoCall} (room : c.writePaths.RoomFor c.self)
    {name : Text} (named : name ≠ []) (fits : name.length < PLANG_MAX_NAME_LEN) :
    (c.setWritePath name).findWritePath = some name := by
  obtain ⟨inserted, insert⟩ := room.insert_isSome name
  rw [setWritePath, if_neg named, insert, findWritePath,
    NameTable.find_insert (NameTable.find_clear _ _) insert, keptName_of_fits fits]

/-- The room stays. -/
theorem room_setWritePath {c : IsoCall} (room : c.writePaths.RoomFor c.self) {name : Text}
    (named : name ≠ []) : (c.setWritePath name).writePaths.RoomFor c.self := by
  obtain ⟨inserted, insert⟩ := room.insert_isSome name
  rw [setWritePath, if_neg named, insert]
  exact NameTable.RoomFor.insert insert

/-- Keeping a name binds the file, or ends the program for want of room. -/
theorem retain_cases (c : IsoCall) (given : Text) :
    (∃ bindings, c.retain given = { c with bindings } ∧
      (given = [] → bindings = c.bindings) ∧
      (given ≠ [] → bindings.find c.self = some (keptName given))) ∨
    c.retain given = c.stop := by
  rw [retain]
  split
  · rename_i unnamed
    exact .inl ⟨c.bindings, rfl, fun _ => rfl, fun named => absurd unnamed named⟩
  · rename_i named
    rw [setBinding]
    cases rename : c.bindings.rename c.self given with
    | some bindings =>
        exact .inl ⟨bindings, rfl, fun unnamed => absurd unnamed named,
          fun _ => NameTable.find_rename rename⟩
    | none =>
        simp only
        cases insert : c.bindings.insert c.self given with
        | some bindings =>
            exact .inl ⟨bindings, rfl, fun unnamed => absurd unnamed named,
              fun _ => NameTable.find_insert (NameTable.find_of_rename_none rename) insert⟩
        | none => exact .inr rfl

theorem keptName_ne_nil {name : Text} (named : name ≠ []) : keptName name ≠ [] := by
  cases name with
  | nil => exact absurd rfl named
  | cons char name => exact List.cons_ne_nil _ _

/-- A file that has been opened by a name has one from then on. -/
theorem nameToOpen_retain {c : IsoCall} {given : Text} (named : c.nameToOpen given ≠ [])
    (running : (c.retain given).stopped = false) : (c.retain given).nameToOpen [] ≠ [] := by
  obtain ⟨bindings, retained, unnamed, bound⟩ | stops := c.retain_cases given
  · rw [retained]
    by_cases empty : given = []
    · rw [unnamed empty]
      rwa [empty] at named
    · show (if _ then (bindings.find c.self).getD [] else []) ≠ []
      rw [if_pos rfl, bound empty]
      exact keptName_ne_nil empty
  · rw [stops] at running
    cases running

theorem nameToOpen_nil {c : IsoCall} {given : Text} (unnamed : c.nameToOpen given = []) :
    c.nameToOpen [] = [] := by
  by_cases empty : given = []
  · rwa [empty] at unnamed
  · rw [nameToOpen, if_neg empty] at unnamed
    exact absurd unnamed empty

/-- The name of a file fits if the one given does. -/
theorem nameToOpen_fits (c : IsoCall) {given : Text} (fits : given.length < PLANG_MAX_NAME_LEN) :
    (c.nameToOpen given).length < PLANG_MAX_NAME_LEN := by
  rw [nameToOpen]
  split
  · cases found : c.findBinding with
    | none => decide
    | some name => exact NameTable.find_fits found
  · exact fits

/-- The system grants the opening, and the file stands in the tables. -/
structure Granted (c : IsoCall) : Prop where
  reads : ∀ path, c.libc.refuses .read path = none
  updates : ∀ path, c.libc.refuses .readUpdate path = none
  known : c.libc.Known
  room : c.writePaths.RoomFor c.self
  notStandard : c.file.binding ≠ .std

/-- Between two operations of a program that runs. -/
structure Ready (c : IsoCall) : Prop extends Granted c where
  /-- A file that has never been given a name is an internal one. -/
  internal : c.nameToOpen [] = [] → ∀ stream, c.file.fp = some stream →
    ∃ inode, inode < c.libc.next ∧ stream.kind = ⟨.file inode, true, true, false⟩

theorem Moves.nameToOpen {before after : IsoCall} (moves : Moves before after) (given : Text) :
    after.nameToOpen given = before.nameToOpen given := by
  rw [IsoCall.nameToOpen, IsoCall.nameToOpen, findBinding, findBinding, moves.bindings, moves.self]

theorem Granted.moves {before after : IsoCall} (granted : Granted before)
    (moves : Moves before after) : Granted after where
  reads := fun path => by rw [moves.grows.refuses, granted.reads]
  updates := fun path => by rw [moves.grows.refuses, granted.updates]
  known := moves.grows.known granted.known
  room := by
    rw [moves.writePaths, moves.self]
    exact granted.room
  notStandard := by
    rw [moves.binding]
    exact granted.notStandard

theorem Ready.moves {before after : IsoCall} (ready : Ready before) (moves : Moves before after) :
    Ready after where
  toGranted := ready.toGranted.moves moves
  internal := fun unnamed stream fp => by
    have kind := moves.kind
    rw [fp] at kind
    obtain ⟨own, before_fp, same⟩ := Option.map_eq_some_iff.mp kind.symm
    rw [moves.nameToOpen] at unnamed
    obtain ⟨inode, created, own_kind⟩ := ready.internal unnamed own before_fp
    exact ⟨inode, Nat.lt_of_lt_of_le created moves.grows.next, same.symm.trans own_kind⟩

/-! ## A stream on a file -/

/-- A stream on a file that may be written, and what the file holds. -/
structure On (c : IsoCall) (inode : Nat) (held : Text) (stream : Stream) : Prop where
  fp : c.file.fp = some stream
  target : stream.target = .file inode
  canWrite : stream.canWrite = true
  appends : stream.appends = false
  contents : c.libc.contents inode = held
  created : inode < c.libc.next

/-- The stream of an internal file. -/
theorem Ready.on {c : IsoCall} (ready : Ready c) {given : Text}
    (unnamed : c.nameToOpen given = []) {stream : Stream} (fp : c.file.fp = some stream) :
    ∃ inode, On c inode (c.libc.contents inode) stream ∧
      stream.kind = ⟨.file inode, true, true, false⟩ := by
  obtain ⟨inode, created, kind⟩ := ready.internal (nameToOpen_nil unnamed) stream fp
  exact
    ⟨inode,
      { fp
        target := congrArg StreamKind.target kind
        canWrite := congrArg StreamKind.canWrite kind
        appends := congrArg StreamKind.appends kind
        contents := rfl
        created },
      kind⟩

/-- The contents that a file is taken to have once it is opened. -/
def heldBy (mode : OpenMode) (libc : Libc) (inode : Nat) : Text :=
  match mode with
  | .rewrite => []
  | .extend | .update => libc.held inode

/-- A session in which nothing has been written yet. -/
def begun (mode : OpenMode) (inode : Nat) (held : Text) : Session :=
  { mode, inode, held, written := [] }

@[simp] theorem expected_begun (mode : OpenMode) (inode : Nat) (held : Text) :
    (begun mode inode held).expected = held := by
  cases mode <;> simp [Session.expected, begun]

/-- The effect of an opening: it begins a session or ends the program, and of the files that were
there only one that is rewritten changes. -/
structure Begins (mode : OpenMode) (before after : IsoCall) : Prop where
  ready : after.stopped = false → Ready after
  writing : after.stopped = false →
    ∃ inode stream, InSession after (begun mode inode (heldBy mode before.libc inode)) stream
  keeps : ∀ inode, inode < before.libc.next →
    (mode = .rewrite → after.target ≠ some (.file inode)) →
    after.libc.contents inode = before.libc.contents inode

/-- An opening that fails. -/
theorem Begins.stop {mode : OpenMode} {before after : IsoCall}
    (keeps : ∀ inode, inode < before.libc.next →
      (mode = .rewrite → after.target ≠ some (.file inode)) →
      after.libc.contents inode = before.libc.contents inode) :
    Begins mode before after.stop where
  ready := nofun
  writing := nofun
  keeps

/-- The file was opened by a name. -/
theorem Granted.begins_named {mode : OpenMode} {before c : IsoCall} {inode : Nat} {stream : Stream}
    {given : Text} (granted : Granted c)
    (on : On c inode (heldBy mode before.libc inode) stream)
    (pos : stream.pos = (begun mode inode (heldBy mode before.libc inode)).place)
    (entry : c.libc.entries (c.nameToOpen given) = .file inode)
    (named : c.nameToOpen given ≠ []) (fits : given.length < PLANG_MAX_NAME_LEN)
    (running : c.stopped = false)
    (keeps : ∀ other, other < before.libc.next → (mode = .rewrite → other ≠ inode) →
      c.libc.contents other = before.libc.contents other) :
    Begins mode before
      (((c.setWritePath (c.nameToOpen given)).retain given).andThen fun c =>
        c.facing (begun mode inode (heldBy mode before.libc inode)).readable) := by
  have found := findWritePath_setWritePath granted.room named (c.nameToOpen_fits fits)
  have room := room_setWritePath granted.room named
  obtain ⟨writePaths, path⟩ := c.setWritePath_frame (c.nameToOpen given)
  rw [path] at found room ⊢
  have target : c.target = some (.file inode) := by
    rw [IsoCall.target, on.fp, Option.map_some, on.target]
  obtain ⟨bindings, retained, -⟩ | stops :=
    retain_cases { c with writePaths } given
  · have bound := @nameToOpen_retain { c with writePaths } given named
    rw [retained] at bound ⊢
    rw [andThen, if_neg (by simp [running])]
    exact
      { ready := fun _ =>
          { reads := granted.reads
            updates := granted.updates
            known := granted.known
            room
            notStandard := granted.notStandard
            internal := fun unnamed => absurd unnamed (bound running) }
        writing := fun _ =>
          ⟨inode, stream,
            { fp := on.fp
              target := on.target
              canWrite := on.canWrite
              appends := on.appends
              pos
              contents := on.contents.trans (expected_begun _ _ _).symm
              created := on.created
              readable := rfl
              taken := fun some_text => absurd rfl some_text
              truncated := fun rewrite => by
                cases rewrite
                rfl
              path := fun _ => by
                show CanLook c.libc (writePaths.find c.self) inode stream
                rw [show writePaths.find c.self = _ from found]
                exact entry }⟩
        keeps := fun other old changed => keeps other old fun rewrite same =>
          changed rewrite (by rw [same]; exact target) }
  · rw [stops]
    exact .stop fun other old changed => keeps other old fun rewrite same =>
      changed rewrite (by rw [same]; exact target)

/-- An internal file was opened. -/
theorem Granted.begins_unnamed {mode : OpenMode} {before c : IsoCall} {inode : Nat} {stream : Stream}
    (granted : Granted c) (on : On c inode (heldBy mode before.libc inode) stream)
    (pos : stream.pos = (begun mode inode (heldBy mode before.libc inode)).place)
    (kind : stream.kind = ⟨.file inode, true, true, false⟩)
    (keeps : ∀ other, other < before.libc.next → (mode = .rewrite → other ≠ inode) →
      c.libc.contents other = before.libc.contents other) :
    Begins mode before
      (c.clearWritePath.facing (begun mode inode (heldBy mode before.libc inode)).readable) where
  ready := fun _ =>
    { reads := granted.reads
      updates := granted.updates
      known := granted.known
      room := granted.room.clear
      notStandard := granted.notStandard
      internal := fun _ other fp => by
        cases on.fp.symm.trans fp
        exact ⟨inode, on.created, kind⟩ }
  writing := fun _ =>
    ⟨inode, stream,
      { fp := on.fp
        target := on.target
        canWrite := on.canWrite
        appends := on.appends
        pos
        contents := on.contents.trans (expected_begun _ _ _).symm
        created := on.created
        readable := rfl
        taken := fun some_text => absurd rfl some_text
        truncated := fun rewrite => by
          cases rewrite
          rfl
        path := fun _ => by
          show CanLook c.libc ((c.writePaths.clear c.self).find c.self) inode stream
          rw [NameTable.find_clear]
          exact congrArg StreamKind.canRead kind }⟩
  keeps := fun other old changed => keeps other old fun rewrite same =>
    changed rewrite (by
      rw [same]
      show c.file.fp.map Stream.target = _
      rw [on.fp, Option.map_some, on.target])

/-- Other files were created and nothing else happened, but that the file was closed. -/
theorem Granted.grow {c : IsoCall} (granted : Granted c) {libc : Libc} (grows : c.libc.Grows libc)
    {file : PascalFile} (notStandard : file.binding ≠ .std) :
    Granted { c with toCall := { libc, file } } where
  reads := fun path => by rw [grows.refuses, granted.reads]
  updates := fun path => by rw [grows.refuses, granted.updates]
  known := grows.known granted.known
  room := granted.room
  notStandard

/-- The stream was closed. -/
theorem Granted.close {c : IsoCall} (granted : Granted c) :
    Granted (c.shared Call.closeStream) :=
  granted.grow (.refl _) nofun

/-- Other files were created, and one was opened. -/
theorem Granted.attach {c : IsoCall} (granted : Granted c) {libc : Libc}
    (grows : c.libc.Grows libc) (stream : Stream) : Granted ({ c with libc }.attach stream) :=
  granted.grow grows granted.notStandard

theorem andThen_of_running {c : IsoCall} (running : c.stopped = false)
    (next : IsoCall → IsoCall) : c.andThen next = next c := by
  rw [andThen, running]
  rfl

theorem andThen_clearWritePath {c : IsoCall} (running : c.stopped = false)
    (next : IsoCall → IsoCall) :
    (c.andThen clearWritePath).andThen next = next c.clearWritePath := by
  rw [andThen_of_running running, andThen_of_running]
  exact running

/-- A fresh internal file was opened. -/
structure Fresh (before after : IsoCall) (stream : Stream) : Prop where
  granted : Granted after
  on : On after before.libc.next [] stream
  kind : stream.kind = ⟨.file before.libc.next, true, true, false⟩
  pos : stream.pos = 0
  stopped : after.stopped = before.stopped
  keeps : ∀ other, other < before.libc.next →
    after.libc.contents other = before.libc.contents other

/-- Opening an internal file makes a fresh one, or ends the program. -/
theorem openTemp_cases {c : IsoCall} (granted : Granted c) :
    (∃ stream, Fresh c c.openTemp stream) ∨
    ∃ failed : IsoCall, c.openTemp = failed.stop ∧ failed.libc.contents = c.libc.contents := by
  rw [openTemp]
  rcases opened : c.libc.tmpfile with ⟨_ | stream, libc⟩
  · exact .inr ⟨_, rfl, (Libc.tmpfile_none opened).contents⟩
  · obtain ⟨rfl, grows, empty, created, others⟩ := Libc.tmpfile_some opened
    exact .inl
      ⟨_,
        { granted := granted.grow grows (by simp)
          on := ⟨rfl, rfl, rfl, rfl, empty, created⟩
          kind := rfl
          pos := rfl
          stopped := rfl
          keeps := others }⟩

/-- A session on a fresh internal file. -/
theorem begins_openTemp {mode : OpenMode} {before c : IsoCall} (granted : Granted c)
    (running : c.stopped = false) (same : before.libc = c.libc) :
    Begins mode before
      ((c.openTemp.andThen clearWritePath).andThen fun c =>
        c.facing (begun mode 0 []).readable) := by
  have nothing : heldBy mode before.libc c.libc.next = [] := by
    rw [same]
    cases mode
    · rfl
    · exact c.libc.held_next
    · exact c.libc.held_next
  obtain ⟨stream, fresh⟩ | ⟨failed, stops, contents⟩ := openTemp_cases granted
  · generalize c.openTemp = d at *
    rw [andThen_clearWritePath (fresh.stopped.trans running)]
    have on : On d c.libc.next (heldBy mode before.libc c.libc.next) stream := by
      rw [nothing]
      exact fresh.on
    have pos : stream.pos =
        (begun mode c.libc.next (heldBy mode before.libc c.libc.next)).place := by
      rw [fresh.pos, nothing]
      cases mode <;> rfl
    have begins := fresh.granted.begins_unnamed on pos fresh.kind fun other old _ => by
      rw [same] at old ⊢
      exact fresh.keeps other old
    cases mode <;> exact begins
  · rw [stops]
    apply Begins.stop
    intro inode _ _
    rw [same]
    exact congrFun contents inode

/-- `rewrite` of a file whose last line has been seen to. -/
theorem begins_plangRewrite {c : IsoCall} (ready : Ready c) (running : c.stopped = false)
    {given : Text} (fits : given.length < PLANG_MAX_NAME_LEN) :
    Begins .rewrite c (c.plangRewrite given false) := by
  have closed := ready.toGranted.close
  have internal : ¬(c.nameToOpen given = [] ∧ c.file.binding = .std) := fun both =>
    ready.notStandard both.2
  rw [plangRewrite]
  simp only [finishText, Bool.false_eq_true, if_false, if_neg internal]
  split
  · exact begins_openTemp closed running rfl
  · rename_i named
    rw [rewriteNamed]
    rcases opened : (c.shared Call.closeStream).libc.fopen .write (c.nameToOpen given) with
      ⟨_ | stream, libc⟩
    · apply Begins.stop
      intro inode _ _
      exact congrFun (Libc.fopen_none opened).contents inode
    · obtain ⟨inode, rfl, emptied⟩ := Libc.fopen_write opened
      exact (closed.attach emptied.grows _).begins_named
        ⟨rfl, rfl, rfl, rfl, emptied.contents, emptied.created ready.known⟩ rfl emptied.entry named
        fits running fun other _ changed => emptied.others other (changed rfl)

/-- Where an opening in both directions goes: about the open file only, to its place. -/
structure Places (mode : OpenMode) (place : IsoCall → IsoCall) : Prop where
  moves : ∀ c, Moves c (place c)
  on : ∀ (c : IsoCall) (inode : Nat) (held : Text) (stream : Stream), On c inode held stream →
    ∃ placed, On (place c) inode held placed ∧ placed.kind = stream.kind ∧
      placed.pos = (begun mode inode held).place

/-- A file that holds what it held lets all files hold what they held. -/
theorem On.keeps {before after : IsoCall} {inode : Nat} {held : Text} {stream placed : Stream}
    (on : On before inode held stream) (moves : Moves before after)
    (on_placed : On after inode held placed) (other : Nat) :
    after.libc.contents other = before.libc.contents other := by
  by_cases same : other = inode
  · rw [same, on_placed.contents, on.contents]
  · apply moves.others
    rw [IsoCall.target, on.fp, Option.map_some, on.target]
    simpa using Ne.symm same

/-- A file was opened in both directions. -/
structure Attached (before after : IsoCall) (name : Text) (inode : Nat) (stream : Stream) :
    Prop where
  granted : Granted after
  on : On after inode (before.libc.held inode) stream
  entry : after.libc.entries name = .file inode
  stopped : after.stopped = before.stopped
  nameToOpen : ∀ given, after.nameToOpen given = before.nameToOpen given
  keeps : ∀ other, other < before.libc.next →
    after.libc.contents other = before.libc.contents other

theorem Attached.of_opened {c : IsoCall} (granted : Granted c) {name : Text} {inode : Nat}
    {libc : Libc} (file : c.libc.Opened name inode libc) {stream : Stream}
    (target : stream.target = .file inode) (canWrite : stream.canWrite = true)
    (appends : stream.appends = false) :
    Attached c ({ c with libc }.attach stream) name inode stream where
  granted := granted.attach file.grows stream
  on := ⟨rfl, target, canWrite, appends, file.contents granted.known, file.created granted.known⟩
  entry := file.entry
  stopped := rfl
  nameToOpen := fun _ => rfl
  keeps := file.others

/-- Opening in both directions attaches a file, or ends the program. -/
theorem openBoth_cases {c : IsoCall} (granted : Granted c) (name : Text) :
    (∃ inode stream, Attached c (c.openBoth name) name inode stream) ∨
    ∃ failed : IsoCall, c.openBoth name = failed.stop ∧ failed.libc.contents = c.libc.contents := by
  rw [openBoth]
  rcases opened : c.libc.fopen .readUpdate name with ⟨_ | stream, libc⟩
  · obtain ⟨untouched, next, absent⟩ := Libc.fopen_readUpdate_none (granted.updates name) opened
    simp only
    rcases created : libc.fopen .writeUpdate name with ⟨_ | stream, after⟩
    · exact .inr ⟨_, rfl, (Libc.fopen_none created).contents.trans untouched.contents⟩
    · obtain ⟨rfl, file⟩ := Libc.fopen_writeUpdate absent created
      exact .inl ⟨_, _, .of_opened granted (untouched.opened next file) rfl rfl rfl⟩
  · obtain ⟨inode, size, rfl, file⟩ := Libc.fopen_readUpdate opened
    exact .inl ⟨_, _, .of_opened granted file rfl rfl rfl⟩

/-- `extend` and `update` of a file whose last line has been seen to. -/
theorem begins_openAt {mode : OpenMode} {place : IsoCall → IsoCall} (places : Places mode place)
    (both : mode ≠ .rewrite) {c : IsoCall} (ready : Ready c) (running : c.stopped = false)
    {given : Text} (fits : given.length < PLANG_MAX_NAME_LEN) :
    Begins mode c (c.openAt given false place) := by
  have readable : ∀ inode held, (begun mode inode held).readable = .both := by
    cases mode
    · exact absurd rfl both
    · exact fun _ _ => rfl
    · exact fun _ _ => rfl
  have heldBy_eq : ∀ libc inode, heldBy mode libc inode = libc.held inode := by
    cases mode
    · exact absurd rfl both
    · exact fun _ _ => rfl
    · exact fun _ _ => rfl
  rw [openAt]
  simp only [finishText, Bool.false_eq_true, if_false]
  split
  · rename_i unnamed
    rw [bothInternal]
    split
    · rename_i is_open
      obtain ⟨stream, fp⟩ := Option.isSome_iff_exists.mp is_open
      obtain ⟨inode, on, kind⟩ := ready.on unnamed fp
      have held := (heldBy_eq c.libc inode).trans (Libc.held_of_created on.created)
      rw [← held] at on
      obtain ⟨placed, on_placed, placed_kind, pos⟩ := places.on c inode _ stream on
      have moves := places.moves c
      rw [andThen_clearWritePath (moves.stopped.trans running)]
      have begins : Begins mode c _ :=
        (ready.toGranted.moves moves).begins_unnamed on_placed pos (placed_kind.trans kind) ?_
      · rwa [readable] at begins
      · exact fun other _ _ => on.keeps moves on_placed other
    · have fresh := @begins_openTemp mode c c ready.toGranted running rfl
      rwa [readable] at fresh
  · rename_i named
    have closed := ready.toGranted.close
    obtain ⟨inode, stream, attached⟩ | ⟨failed, opens, same⟩ :=
      openBoth_cases closed (c.nameToOpen given)
    · rw [bothNamed]
      generalize (c.shared Call.closeStream).openBoth (c.nameToOpen given) = d at *
      rw [andThen_of_running (attached.stopped.trans running)]
      have on : On d inode (heldBy mode c.libc inode) stream := by
        rw [heldBy_eq]
        exact attached.on
      obtain ⟨placed, on_placed, kind, pos⟩ := places.on d inode _ stream on
      have moves := places.moves d
      have name_eq : c.nameToOpen given = (place d).nameToOpen given := by
        rw [moves.nameToOpen, attached.nameToOpen]
        rfl
      rw [name_eq] at named attached ⊢
      have begins : Begins mode c _ :=
        (attached.granted.moves moves).begins_named on_placed pos
          (moves.grows.entries _ _ attached.entry) named fits
          (moves.stopped.trans (attached.stopped.trans running))
          fun other old _ => (on.keeps moves on_placed other).trans (attached.keeps other old)
      rwa [readable] at begins
    · rw [bothNamed, opens]
      exact .stop fun inode _ _ => congrFun same inode

/-- Going to a place. -/
theorem On.goTo {c : IsoCall} {inode : Nat} {held : Text} {stream : Stream}
    (on : On c inode held stream) (pos : Nat) :
    ∃ placed, On (c.goTo pos) inode held placed ∧ placed.kind = stream.kind ∧
      placed.pos = pos := by
  have flushed := Gentle.fflush.kind c.libc stream
  have untouched := Libc.fflush_untouched c.libc stream
  have target : (c.libc.fflush stream).2.2.target = .file inode :=
    (congrArg StreamKind.target flushed).trans on.target
  rw [IsoCall.goTo, shared, Call.fflush, Call.onStream_of_open on.fp, Call.fseek,
    Call.onStream_of_open rfl, Libc.fseek_file target]
  exact
    ⟨_,
      { fp := rfl
        target
        canWrite := (congrArg StreamKind.canWrite flushed).trans on.canWrite
        appends := (congrArg StreamKind.appends flushed).trans on.appends
        contents := (congrFun untouched.contents inode).trans on.contents
        created := Nat.lt_of_lt_of_le on.created untouched.grows.next },
      flushed, rfl⟩

theorem places_goToEnd : Places .extend goToEnd where
  moves := fun c => by
    rw [goToEnd]
    split
    · exact .refl c
    · exact .goTo c _
  on := fun c inode held stream on => by
    have size : c.sizeOf = some held.length := by
      rw [Call.sizeOf, on.fp, Option.bind_some, Libc.sizeOf, on.target]
      exact congrArg (fun text => some (List.length text)) on.contents
    rw [goToEnd, size]
    obtain ⟨placed, on_placed, kind, pos⟩ := on.goTo held.length
    exact ⟨placed, on_placed, kind, by simp [pos, Session.place, begun]⟩

theorem places_front : Places .update fun c => (c.goTo 0).shared Call.clearerr where
  moves := fun c => (Moves.goTo c 0).trans (.clearerr _)
  on := fun c inode held stream on => by
    obtain ⟨placed, on_placed, kind, pos⟩ := on.goTo 0
    rw [shared, Call.clearerr, Call.onStream_of_open on_placed.fp]
    exact
      ⟨{ placed with error := false },
        ⟨rfl, on_placed.target, on_placed.canWrite, on_placed.appends, on_placed.contents,
          on_placed.created⟩,
        kind, pos⟩

/-! ## Operations that end a session -/

/-- What such an operation does to a file whose last line has been seen to. -/
structure Ends (before after : IsoCall) : Prop where
  ready : after.stopped = false → Ready after
  keeps : ∀ inode, inode < before.libc.next →
    after.libc.contents inode = before.libc.contents inode

theorem Ends.stop {before failed : IsoCall} (same : failed.libc.contents = before.libc.contents) :
    Ends before failed.stop :=
  ⟨nofun, fun inode _ => congrFun same inode⟩

/-- `close` of a file whose last line has been seen to. -/
theorem ends_plangClose {c : IsoCall} (ready : Ready c) : Ends c (c.plangClose false) where
  ready := fun _ =>
    { reads := ready.reads
      updates := ready.updates
      known := ready.known
      room := ready.room.clear
      notStandard := nofun
      internal := nofun }
  keeps := fun _ _ => rfl

/-- Looking at the next character changes no file. -/
theorem contents_prime (c : Call) : c.prime.libc.contents = c.libc.contents := by
  rcases fp : c.file.fp with _ | stream
  · simp [Call.prime, Call.fgetc, Call.onStream, fp]
  · have contents := Libc.contents_fgetc c.libc stream
    rcases read : c.libc.fgetc stream with ⟨_ | char, libc, moved⟩
    · rw [read] at contents
      simpa [Call.prime, Call.fgetc, Call.onStream, fp, read] using contents
    · rw [read] at contents
      simpa [Call.prime, Call.fgetc, Call.ungetc, Call.onStream, fp, read,
        Libc.contents_ungetc] using contents

/-- The file faces its reader. -/
theorem Ends.faceReader {before c : IsoCall} (ready : Ready c)
    (keeps : ∀ inode, inode < before.libc.next →
      c.libc.contents inode = before.libc.contents inode) : Ends before c.faceReader where
  ready := fun _ => by
    have faced : Ready (c.withFile fun file => { file with readable := .read, compLoaded := false }) :=
      ⟨ready.toGranted.grow (.refl _) ready.notStandard, ready.internal⟩
    exact faced.moves (.prime _)
  keeps := fun inode old => (congrFun (contents_prime _) inode).trans (keeps inode old)

/-- `reset` of a file whose last line has been seen to. -/
theorem ends_plangReset {c : IsoCall} (ready : Ready c) (running : c.stopped = false)
    (given : Text) : Ends c (c.plangReset given false) := by
  rw [plangReset]
  simp only [finishText, Bool.false_eq_true, if_false]
  split
  · rename_i unnamed
    rw [resetInternal, if_neg ready.notStandard]
    split
    · rename_i is_open
      obtain ⟨stream, fp⟩ := Option.isSome_iff_exists.mp is_open
      obtain ⟨inode, on, kind⟩ := ready.on unnamed fp
      have moves := places_front.moves c
      obtain ⟨placed, on_placed, -⟩ := places_front.on c inode _ stream on
      rw [andThen_of_running (moves.stopped.trans running)]
      exact .faceReader (ready.moves moves) fun other _ => on.keeps moves on_placed other
    · obtain ⟨stream, fresh⟩ | ⟨failed, stops, contents⟩ := openTemp_cases ready.toGranted
      · rw [andThen_of_running (fresh.stopped.trans running)]
        refine .faceReader ⟨fresh.granted, fun _ other fp => ?_⟩ fresh.keeps
        cases fresh.on.fp.symm.trans fp
        exact ⟨_, fresh.on.created, fresh.kind⟩
      · rw [stops]
        exact .stop contents
  · rename_i named
    have closed := ready.toGranted.close
    have untouched := Libc.fopen_read (c.shared Call.closeStream).libc (c.nameToOpen given)
    rw [resetNamed]
    rcases opened : (c.shared Call.closeStream).libc.fopen .read (c.nameToOpen given) with
      ⟨_ | stream, libc⟩
    · exact .stop (Libc.fopen_none opened).contents
    · rw [opened] at untouched
      simp only
      split
      · exact .stop untouched.contents
      · have attached := closed.attach untouched.grows stream
        generalize eq : ({ c.shared Call.closeStream with libc }.attach stream) = d at *
        have name_eq : d.nameToOpen given = c.nameToOpen given := by
          rw [← eq]
          rfl
        have stopped : d.stopped = false := by rwa [← eq]
        have contents : d.libc.contents = c.libc.contents := by
          rw [← eq]
          exact untouched.contents
        obtain ⟨bindings, retained, -⟩ | stops := d.retain_cases given
        · have bound := @nameToOpen_retain d given (by rwa [name_eq])
          rw [retained] at bound ⊢
          rw [andThen_of_running (c := { d with bindings }) stopped]
          have granted : Granted { d with bindings } :=
            ⟨attached.reads, attached.updates, attached.known, attached.room,
              attached.notStandard⟩
          exact .faceReader ⟨granted, fun unnamed => absurd unnamed (bound stopped)⟩
            fun inode _ => congrFun contents inode
        · rw [stops]
          exact .stop contents

end IsoCall

end Runtime

end Plang
