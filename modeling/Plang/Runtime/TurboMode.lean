import Plang.Runtime.Opening
import Plang.Runtime.TurboLatch

/-!
# The mode of a file variable

Whether the mode of a variable tells if the file is open.  An opening closes the stream that the
variable has before anything can fail, and leaves the mode as it was when something does; so the
mode goes wrong where an open file is opened in vain, and nowhere else.
-/

namespace Plang

namespace Stdio

namespace Libc

/-- The system opens the file at a path. -/
def admits (libc : Libc) (request : Request) (path : Text) : Bool :=
  (libc.refuses request path).isNone &&
    match libc.entries path with
    | .absent => request.creates
    | .directory => false
    | .file _ => true

theorem admits_congr {libc other : Libc} (refuses : libc.refuses = other.refuses)
    (entries : libc.entries = other.entries) (request : Request) (path : Text) :
    libc.admits request path = other.admits request path := by
  rw [admits, admits, refuses, entries]

theorem isDirectory_attach (request : Request) (target : Target) (size : Nat) :
    isDirectory (attach request target size) = (target == .directory) := by
  cases request <;> rfl

theorem fopen_any (libc : Libc) (request : Request) (path : Text) :
    ((libc.fopen request path).1.any fun stream => !isDirectory stream) =
      libc.admits request path := by
  rcases refused : libc.refuses request path with _ | errno
  · rcases entry : libc.entries path with _ | _ | inode
    · by_cases creates : request.creates <;>
        simp [fopen, admits, refused, entry, creates, isDirectory_attach]
    · by_cases read : request = .read
      · subst read
        simp [fopen, admits, refused, entry, isDirectory_attach]
      · simp [fopen, admits, refused, entry, read]
    · by_cases truncates : request.truncates <;>
        simp [fopen, admits, refused, entry, truncates, isDirectory_attach]
  · simp [fopen, admits, refused]

/-- Only reading opens a directory. -/
theorem isDirectory_of_fopen {libc after : Libc} {request : Request} {path : Text}
    {stream : Stream} (opens : libc.fopen request path = (some stream, after))
    (unread : request ≠ .read) : isDirectory stream = false := by
  rcases refused : libc.refuses request path with _ | errno
  · rcases entry : libc.entries path with _ | _ | inode
    · by_cases creates : request.creates <;>
        simp [fopen, refused, entry, creates] at opens
      rw [← opens.1, isDirectory_attach]
      rfl
    · simp [fopen, refused, entry, unread] at opens
    · by_cases truncates : request.truncates <;>
        simp [fopen, refused, entry, truncates] at opens <;>
        rw [← opens.1, isDirectory_attach] <;> rfl
  · simp [fopen, refused] at opens

/-- Opening a file does not change what the system refuses. -/
theorem fopen_refuses (libc : Libc) (request : Request) (path : Text) :
    (libc.fopen request path).2.refuses = libc.refuses := by
  rw [fopen]
  split
  · rfl
  · split
    · split <;> rfl
    · split <;> rfl
    · split <;> rfl

/-- Attaching a stream to a descriptor changes nothing else. -/
theorem fdopen_isNone (libc : Libc) (path : Text) :
    (libc.fdopen path).1 = (libc.refuses .fdopen path).isNone := by
  rcases refused : libc.refuses .fdopen path with _ | errno <;> simp [fdopen, refused]

theorem access_eq (libc : Libc) (path : Text) :
    (libc.access path).1 =
        ((libc.refuses .access path).isNone && decide (libc.entries path ≠ .absent)) ∧
      (libc.access path).2.refuses = libc.refuses ∧
      (libc.access path).2.entries = libc.entries := by
  rcases refused : libc.refuses .access path with _ | errno
  · by_cases absent : libc.entries path = .absent <;> simp [access, refused, absent]
  · simp [access, refused]

end Libc

end Stdio

namespace Runtime

open Stdio

namespace TurboCall

variable {c : TurboCall}

/-! ## When openings succeed -/

/-- The mode that `Reset` goes by: `FileMode`, for a text the mode of reading. -/
def effectiveFileMode (c : TurboCall) : Int := if 0 < c.file.recSize then c.fileMode else 0

/-- `Reset` can open the file. -/
def canReset (c : TurboCall) : Bool :=
  c.file.name.isEmpty ||
    if c.effectiveFileMode = 1 then
      c.libc.admits .writeOnly c.file.name && (c.libc.refuses .fdopen c.file.name).isNone
    else
      c.libc.admits (if c.effectiveFileMode == 2 then .readUpdate else .read) c.file.name

/-- `Rewrite` can open the file. -/
def canRewrite (c : TurboCall) : Bool :=
  c.file.name.isEmpty ||
    c.libc.admits (if 0 < c.file.recSize then .writeUpdate else .write) c.file.name

/-- `Append` can open the file. -/
def canAppend (c : TurboCall) : Bool :=
  c.file.name.isEmpty ||
    ((c.libc.refuses .access c.file.name).isNone && decide (c.libc.entries c.file.name ≠ .absent) &&
      c.libc.admits .append c.file.name)

/-- The variable with another record size. -/
def withRecSize (c : TurboCall) (recSize : Int) : TurboCall :=
  c.withFile fun file => { file with recSize }

/-- An operation that opens the file can do so; the others ask for nothing. -/
def canOpen (c : TurboCall) : FileOperation → Bool
  | .reset => c.canReset
  | .rewrite => c.canRewrite
  | .append => c.canAppend
  | .resetSized recSize => decide (recSize ≠ 0) && (c.withRecSize recSize).canReset
  | .rewriteSized recSize => decide (recSize ≠ 0) && (c.withRecSize recSize).canRewrite
  | _ => true

/-- The mode that a successful opening sets. -/
def openedMode : FileOperation → FileMode
  | .reset | .resetSized _ => .fmInput
  | _ => .fmOutput

theorem opening_opened (stream : Stream) (readable : Readable) (mode : FileMode) :
    (c.opened stream readable mode).opening = (mode, true) := rfl

theorem opening_openedStd (stream : Stream) (readable : Readable) (mode : FileMode) :
    (c.openedStd stream readable mode).opening = (mode, true) := rfl

theorem opening_resetWriteOnly :
    c.resetWriteOnly.opening =
      if c.libc.admits .writeOnly c.file.name && (c.libc.refuses .fdopen c.file.name).isNone then
        (.fmInput, true)
      else c.opening := by
  have admitted := c.libc.fopen_any .writeOnly c.file.name
  have refuses := c.libc.fopen_refuses .writeOnly c.file.name
  rw [resetWriteOnly, ← admitted]
  split <;> rename_i opens <;> rw [opens] at refuses ⊢
  · simp
  · rename_i stream libc
    rcases directory : Libc.isDirectory stream
    · have attached := libc.fdopen_isNone c.file.name
      rw [refuses] at attached
      rw [if_neg (by simp)]
      split <;> rename_i attach_eq <;> rw [attach_eq] at attached
      · simp [← attached]
      · simp [directory, ← attached, opening_opened]
    · simp [directory]
      rfl

theorem opening_resetRead (readWrite : Bool) :
    (c.resetRead readWrite).opening =
      if c.libc.admits (if readWrite then .readUpdate else .read) c.file.name then (.fmInput, true)
      else c.opening := by
  have admitted := c.libc.fopen_any (if readWrite then .readUpdate else .read) c.file.name
  rw [resetRead, ← admitted]
  split <;> rename_i opens <;> rw [opens]
  · simp
  · rename_i stream libc
    rcases directory : Libc.isDirectory stream
    · simp [directory, opening_opened]
    · simp [directory]
      rfl

theorem plangTpReset_eq (clear : c.inOutRes = 0) :
    c.plangTpReset =
      if c.file.name = [] then (c.shared Call.closeStream).openedStd .stdin .read .fmInput
      else if c.effectiveFileMode = 1 then (c.shared Call.closeStream).resetWriteOnly
      else (c.shared Call.closeStream).resetRead (c.effectiveFileMode == 2) :=
  if_neg (unsuppressed clear)

/-- `Reset` closes the stream the variable has, whether it then opens the file or not. -/
theorem opening_plangTpReset (clear : c.inOutRes = 0) :
    c.plangTpReset.opening = if c.canReset then (.fmInput, true) else (c.file.mode, false) := by
  rw [plangTpReset_eq clear]
  by_cases unnamed : c.file.name = []
  · rw [if_pos unnamed, opening_openedStd]
    simp [canReset, unnamed]
  · have named : c.file.name.isEmpty = false := by simpa using unnamed
    rw [if_neg unnamed, canReset, named, Bool.false_or]
    by_cases writeOnly : c.effectiveFileMode = 1
    · rw [if_pos writeOnly, if_pos writeOnly]
      exact opening_resetWriteOnly
    · rw [if_neg writeOnly, if_neg writeOnly]
      exact opening_resetRead _

theorem opening_openFor {request : Request} (unread : request ≠ .read) (readable : Readable)
    (mode : FileMode) :
    (c.openFor request readable mode).opening =
      if c.libc.admits request c.file.name then (mode, true) else c.opening := by
  rw [openFor, ← Libc.fopen_any]
  split <;> rename_i opens <;> rw [opens]
  · simp
  · simp [Libc.isDirectory_of_fopen opens unread, opening_opened]

theorem plangTpRewrite_eq (clear : c.inOutRes = 0) :
    c.plangTpRewrite =
      if c.file.name = [] then (c.shared Call.closeStream).openedStd .stdout .write .fmOutput
      else if 0 < c.file.recSize then
        (c.shared Call.closeStream).openFor .writeUpdate .both .fmOutput
      else (c.shared Call.closeStream).openFor .write .write .fmOutput :=
  if_neg (unsuppressed clear)

/-- `Rewrite` closes it too. -/
theorem opening_plangTpRewrite (clear : c.inOutRes = 0) :
    c.plangTpRewrite.opening =
      if c.canRewrite then (.fmOutput, true) else (c.file.mode, false) := by
  rw [plangTpRewrite_eq clear]
  by_cases unnamed : c.file.name = []
  · rw [if_pos unnamed, opening_openedStd]
    simp [canRewrite, unnamed]
  · have named : c.file.name.isEmpty = false := by simpa using unnamed
    rw [if_neg unnamed, canRewrite, named, Bool.false_or]
    by_cases sized : 0 < c.file.recSize
    · rw [if_pos sized, if_pos sized]
      exact opening_openFor (by simp) _ _
    · rw [if_neg sized, if_neg sized]
      exact opening_openFor (by simp) _ _

theorem opening_appendNamed :
    c.appendNamed.opening =
      if (c.libc.refuses .access c.file.name).isNone &&
          decide (c.libc.entries c.file.name ≠ .absent) && c.libc.admits .append c.file.name then
        (.fmOutput, true)
      else c.opening := by
  obtain ⟨there, refuses, entries⟩ := c.libc.access_eq c.file.name
  rw [appendNamed, ← there]
  split <;> rename_i probe <;> rw [probe] at refuses entries ⊢
  · simp
  · rw [opening_openFor (by simp), Libc.admits_congr refuses entries]
    rfl

/-- `Append` opens the file for output where it can, and else leaves it closed. -/
theorem opening_plangTpAppend (clear : c.inOutRes = 0) :
    c.plangTpAppend.opening = if c.canAppend then (.fmOutput, true) else (c.file.mode, false) := by
  have append_eq : c.plangTpAppend =
      if c.file.name = [] then (c.shared Call.closeStream).openedStd .stdout .write .fmOutput
      else (c.shared Call.closeStream).appendNamed :=
    if_neg (unsuppressed clear)
  rw [append_eq]
  by_cases unnamed : c.file.name = []
  · rw [if_pos unnamed, opening_openedStd]
    simp [canAppend, unnamed]
  · have named : c.file.name.isEmpty = false := by simpa using unnamed
    rw [if_neg unnamed, canAppend, named, Bool.false_or]
    exact opening_appendNamed

theorem opening_sized {recSize : Int} {openIt : TurboCall → TurboCall} {mode : FileMode}
    {can : TurboCall → Bool} (clear : c.inOutRes = 0)
    (opens : ∀ now : TurboCall, now.inOutRes = 0 →
      (openIt now).opening = if can now then (mode, true) else (now.file.mode, false)) :
    (c.sized recSize openIt).opening =
      if decide (recSize ≠ 0) && can (c.withRecSize recSize) then (mode, true)
      else (c.file.mode, false) := by
  rw [sized, if_neg (unsuppressed clear)]
  by_cases zero : recSize = 0
  · rw [if_pos zero, opening_setInOutResIfClear]
    simp [zero]
    rfl
  · have allowed : decide (recSize ≠ 0) = true := by simpa using zero
    rw [if_neg zero, allowed, Bool.true_and]
    exact opens (c.withRecSize recSize) clear

/-- The operations that open a file. -/
def isOpening : FileOperation → Bool
  | .reset | .rewrite | .append | .resetSized _ | .rewriteSized _ => true
  | _ => false

/-- An opening closes the stream the variable has, whether it then opens the file or not. -/
theorem opening_perform_of_isOpening (clear : c.inOutRes = 0) {op : FileOperation}
    (opens : isOpening op) :
    (c.perform op).opening =
      if c.canOpen op then (openedMode op, true) else (c.file.mode, false) := by
  cases op with
  | reset => exact opening_plangTpReset clear
  | rewrite => exact opening_plangTpRewrite clear
  | append => exact opening_plangTpAppend clear
  | resetSized recSize => exact opening_sized clear fun _ => opening_plangTpReset
  | rewriteSized recSize => exact opening_sized clear fun _ => opening_plangTpRewrite
  | _ => exact absurd opens (by simp [isOpening])

/-- The operations that neither assign, open nor close. -/
def keepsOpening : FileOperation → Bool
  | .assign _ | .close => false
  | op => !isOpening op

theorem opening_perform_of_keepsOpening {op : FileOperation} (keeps : keepsOpening op) :
    (c.perform op).opening = c.opening := by
  cases op with
  | erase => exact opening_plangTpErase
  | rename newName => exact opening_plangTpRename newName
  | filepos => exact opening_plangTpFilepos
  | filesize => exact opening_plangTpFilesize
  | seek n => exact opening_plangTpSeek n
  | truncate => exact opening_plangTpTruncate
  | blockread count hasResult => exact opening_plangTpBlockread count hasResult
  | blockwrite buf count hasResult => exact opening_plangTpBlockwrite buf count hasResult
  | flush => exact opening_plangTpFlush
  | settextbuf size ahead =>
      obtain ⟨libc, same⟩ := c.plangTpSettextbuf_eq size ahead
      rw [perform, same]
      rfl
  | eof => exact opening_plangEofFileTurbo
  | eoln => exact opening_plangEolnFileTurbo
  | seekeof => exact opening_plangTpSeekeof
  | seekeoln => exact opening_plangTpSeekeoln
  | readln => exact opening_plangReadlnFileTurbo
  | read reading => exact opening_read reading
  | write writing => exact opening_write writing
  | _ => exact absurd keeps (by simp [keepsOpening, isOpening])

/-- `Close` closes an open file, and does nothing but report an error otherwise. -/
theorem opening_plangTpClose (clear : c.inOutRes = 0) :
    c.plangTpClose.opening = if c.file.fp.isSome then (.fmClosed, false) else c.opening := by
  rcases fp : c.file.fp with _ | stream
  · simp [plangTpClose, ifReady, tpFileReady, unsuppressed clear, fp]
  · simp [plangTpClose, ifReady, tpFileReady, unsuppressed clear, fp]
    rfl

/-! ## What the mode is for -/

/-- An operation refuses to touch the file with error 102, whatever the system would say. -/
def Refuses (op : TurboCall → TurboCall) (c : TurboCall) : Prop :=
  ∀ libc, op { c with libc } = { c with libc }.setInOutResIfClear 102

theorem refuses_plangTpErase_iff (clear : c.inOutRes = 0) :
    Refuses plangTpErase c ↔ c.file.mode ≠ .fmClosed := by
  constructor
  · intro refuses closed
    have erased := congrArg inOutRes (refuses { entries := fun _ => .directory })
    simp [plangTpErase, tpSuppressedByPendingError, setInOutResIfClear, clear, closed,
      Libc.remove] at erased
  · intro unclosed libc
    simp [plangTpErase, tpSuppressedByPendingError, clear, unclosed]

theorem refuses_plangTpRename_iff (clear : c.inOutRes = 0) (newName : Option Text) :
    Refuses (fun call => call.plangTpRename newName) c ↔ c.file.mode ≠ .fmClosed := by
  constructor
  · intro refuses closed
    have renamed := congrArg inOutRes (refuses { entries := fun _ => .directory })
    simp [plangTpRename, tpSuppressedByPendingError, setInOutResIfClear, clear, closed,
      Libc.rename, withFile] at renamed
  · intro unclosed libc
    simp [plangTpRename, tpSuppressedByPendingError, clear, unclosed]

theorem plangTpClose_succeeds_iff (clear : c.inOutRes = 0) :
    c.plangTpClose.inOutRes = 0 ↔ c.file.fp.isSome := by
  rcases fp : c.file.fp with _ | stream
  · simp [plangTpClose, ifReady, tpFileReady, unsuppressed clear, fp, setInOutResIfClear, clear]
  · simp [plangTpClose, ifReady, tpFileReady, unsuppressed clear, fp, shared, withFile, clear]

/-- The mode tells the truth: it says closed exactly where there is no stream, `Erase` and `Rename`
are refused exactly where there is one, and `Close` succeeds exactly where the mode says open. -/
structure ModeTruthful (c : TurboCall) : Prop where
  closed_iff : c.file.mode = .fmClosed ↔ c.file.fp = none
  erase_iff : c.inOutRes = 0 → (Refuses plangTpErase c ↔ c.file.fp ≠ none)
  rename_iff : c.inOutRes = 0 → ∀ newName,
    (Refuses (fun call => call.plangTpRename newName) c ↔ c.file.fp ≠ none)
  close_iff : c.inOutRes = 0 → (c.plangTpClose.inOutRes = 0 ↔ c.file.mode ≠ .fmClosed)

/-- Mode and stream agree. -/
def agrees (opening : FileMode × Bool) : Bool := decide (opening.1 = .fmClosed) == !opening.2

theorem agrees_iff : agrees c.opening ↔ (c.file.mode = .fmClosed ↔ c.file.fp = none) := by
  rcases fp : c.file.fp with _ | stream <;> simp [agrees, Call.opening, fp]

/-- Everything the mode is for follows from its agreement with the stream. -/
theorem modeTruthful_iff : ModeTruthful c ↔ agrees c.opening := by
  rw [agrees_iff]
  constructor
  · exact ModeTruthful.closed_iff
  · intro closed_iff
    refine ⟨closed_iff, fun clear => ?_, fun clear newName => ?_, fun clear => ?_⟩
    · rw [refuses_plangTpErase_iff clear, Ne, closed_iff]
    · rw [refuses_plangTpRename_iff clear, Ne, closed_iff]
    · rw [plangTpClose_succeeds_iff clear, Ne, closed_iff, Option.isSome_iff_ne_none]

/-- Operations that open nothing can always be performed. -/
theorem canOpen_of_not_isOpening {op : FileOperation} (unopening : ¬isOpening op) :
    c.canOpen op := by
  cases op <;> simp_all [isOpening, canOpen]

theorem agrees_opened (op : FileOperation) : agrees (openedMode op, true) := by
  cases op <;> rfl

/-- An operation keeps mode and stream in agreement if and only if it does not open an open file in
vain. -/
theorem agrees_perform_iff (clear : c.inOutRes = 0) (truthful : agrees c.opening)
    (op : FileOperation) :
    agrees (c.perform op).opening ↔ (c.file.fp.isSome → c.canOpen op) := by
  by_cases opens : isOpening op
  · rw [opening_perform_of_isOpening clear opens]
    by_cases can : c.canOpen op
    · simp [can, agrees_opened]
    · rw [agrees_iff] at truthful
      simp [can, agrees, truthful]
  · have can := canOpen_of_not_isOpening (c := c) opens
    refine iff_of_true ?_ fun _ => can
    by_cases keeps : keepsOpening op
    · rwa [opening_perform_of_keepsOpening keeps]
    · cases op with
      | assign name => rfl
      | close =>
          refine (congrArg (fun now => agrees now = true) (opening_plangTpClose clear)).mpr ?_
          split
          · rfl
          · exact truthful
      | _ => simp_all [keepsOpening, isOpening]

end TurboCall

namespace TurboState

variable {V : Type*} [DecidableEq V]

/-- An event does not open the file `f` in vain while it is open: where it is a call of an opening
with `f` that is not suppressed by an error, and `f` is open, the record size is not zero and the
system opens the file. -/
def NotInVain (f : V) (state : TurboState V) (event : Event V) : Prop :=
  ∀ op, event = .call f op → state.stopped = none → state.inOutRes = 0 →
    (state.files f).fp.isSome → (state.enter f).canOpen op

/-- The mode of a variable tells the truth. -/
def ModeTruthful (f : V) (state : TurboState V) : Prop := (state.enter f).ModeTruthful

/-- What happens elsewhere does not open or close the file. -/
theorem opening_handle_of_ne (state : TurboState V) {f : V} {event : Event V}
    (elsewhere : ∀ op, event ≠ .call f op) :
    ((state.handle event).enter f).opening = (state.enter f).opening := by
  cases event with
  | ioResult => rfl
  | ioCheck =>
      rw [handle, plangIocheck]
      dsimp only
      split <;> rfl
  | setFileMode mode => rfl
  | system libc => rfl
  | call g op =>
      have different : f ≠ g := fun same => elsewhere op (same ▸ rfl)
      have same_file := state.leave_files_of_ne different ((state.enter g).perform op)
      exact congrArg (fun file : PascalFile => (file.mode, file.fp.isSome)) same_file

/-- One event keeps the mode truthful if and only if it does not open the file in vain. -/
theorem modeTruthful_step_iff (f : V) (state : TurboState V) (event : Event V)
    (truthful : ModeTruthful f state) :
    ModeTruthful f (state.step event) ↔ NotInVain f state event := by
  by_cases running : state.stopped = none
  · rw [step_of_running running]
    by_cases here : ∃ op, event = .call f op
    · obtain ⟨op, rfl⟩ := here
      by_cases clear : state.inOutRes = 0
      · have exact_step := TurboCall.agrees_perform_iff (c := state.enter f) clear
          (TurboCall.modeTruthful_iff.mp truthful) op
        rw [ModeTruthful, handle, perform, enter_leave, TurboCall.modeTruthful_iff, exact_step]
        constructor
        · rintro opens other same - - stream
          cases same
          exact opens stream
        · exact fun opens stream => opens op rfl running clear stream
      · refine iff_of_true ?_ fun _ _ _ none_pending => absurd none_pending clear
        by_cases assigns : ∃ name, op = .assign name
        · obtain ⟨name, rfl⟩ := assigns
          rw [ModeTruthful, handle, perform, enter_leave, TurboCall.modeTruthful_iff]
          rfl
        · by_cases gives : state.GivesUpInput f op
          · obtain ⟨size, ahead, rfl, -⟩ := gives
            rw [ModeTruthful, handle, perform, enter_leave, TurboCall.modeTruthful_iff,
              TurboCall.opening_perform_of_keepsOpening rfl]
            exact TurboCall.modeTruthful_iff.mp truthful
          · have other : ∀ name, op ≠ .assign name := fun name same => assigns ⟨name, same⟩
            rwa [handle, (perform_eq_self_iff clear f other).mpr gives]
    · have elsewhere : ∀ op, event ≠ .call f op := fun op same => here ⟨op, same⟩
      refine iff_of_true ?_ fun op same => absurd same (elsewhere op)
      rw [ModeTruthful, TurboCall.modeTruthful_iff, opening_handle_of_ne state elsewhere]
      exact TurboCall.modeTruthful_iff.mp truthful
  · rw [step_of_stopped (Option.isSome_iff_ne_none.mpr running)]
    exact iff_of_true truthful fun _ _ going => absurd going running

/-- `Assign` makes the mode truthful. -/
theorem modeTruthful_assign (state : TurboState V) (f : V) (name : Option Text) :
    ModeTruthful f (state.perform f (.assign name)) := by
  rw [ModeTruthful, perform, enter_leave, TurboCall.modeTruthful_iff]
  rfl

/-- From `Assign` on, the mode of a variable always tells the truth if and only if no opening of the
open file is in vain. -/
theorem modeTruthful_always_iff (state : TurboState V) (f : V) (name : Option Text)
    (events : List (Event V)) :
    Runs.Always step (ModeTruthful f) (state.perform f (.assign name)) events ↔
      Runs.Along step (NotInVain f) (state.perform f (.assign name)) events :=
  Runs.always_iff_along (modeTruthful_step_iff f) (modeTruthful_assign state f name)

/-- Opening an open file with records of size zero closes it, and its mode still says open. -/
theorem modeTruthful_fails_reset_zero :
    ¬Runs.Always step (ModeTruthful ()) (nothingThere.perform () (.assign (some ['a'])))
      [.call () (.rewriteSized 1), .call () (.resetSized 0)] := by
  intro always
  have truthful := (TurboCall.modeTruthful_iff.mp always.last)
  exact absurd truthful (by decide)

end TurboState

end Runtime

end Plang
