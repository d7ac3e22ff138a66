import Plang.Library.Runs
import Plang.Runtime.IsoOpening

/-!
# The last line of a text file

A program opens one text file again and again, writes it and closes it.  While it writes, the file
holds what it held at the opening and what was written since; when a file that was rewritten is
closed or opened again, its last line is ended.
-/

namespace Plang

namespace Runtime

open Stdio Runs

/-- The name that an operation gives. -/
def TextOp.name : TextOp → Text
  | .reset name | .rewrite name | .extend name | .update name => name
  | .close | .write _ | .writeNothing | .exit => []

/-- The operations that end a session, or begin the next one. -/
def TextOp.ends : TextOp → Bool
  | .reset _ | .rewrite _ | .extend _ | .update _ | .close => true
  | .write _ | .writeNothing | .exit => false

/-- A program's file, and the session of writing it is in. -/
structure Traced where
  call : IsoCall
  session : Option Session

namespace Traced

/-- The session that an opening begins, if it succeeds. -/
def opened (mode : OpenMode) (before after : IsoCall) : Option Session :=
  match after.stopped, after.target with
  | false, some (.file inode) =>
      some (IsoCall.begun mode inode (IsoCall.heldBy mode before.libc inode))
  | _, _ => none

/-- The session after an operation; what a stopped program could not write does not count. -/
def sessionAfter (traced : Traced) (op : TextOp) (after : IsoCall) : Option Session :=
  match op with
  | .rewrite _ => opened .rewrite (traced.call.finishText true) after
  | .extend _ => opened .extend (traced.call.finishText true) after
  | .update _ => opened .update (traced.call.finishText true) after
  | .reset _ | .close => none
  | .write bytes =>
      if after.stopped then traced.session
      else traced.session.map fun session => session.write bytes
  | .writeNothing | .exit => traced.session

/-- One operation, unless the program has ended. -/
def step (traced : Traced) (op : TextOp) : Traced :=
  if traced.call.stopped then traced
  else
    { call := traced.call.perform op
      session := traced.sessionAfter op (traced.call.perform op) }

/-- A program that starts with the file closed. -/
def trace (c : IsoCall) (ops : List TextOp) : Traced := run step ⟨c, none⟩ ops

theorem call_step (traced : Traced) (op : TextOp) : (traced.step op).call = traced.call.step op := by
  rw [step, IsoCall.step, IsoCall.andThen]
  split <;> rfl

/-- Keeping track of the session does not disturb the program. -/
theorem call_run (traced : Traced) (ops : List TextOp) :
    (run step traced ops).call = run IsoCall.step traced.call ops := by
  induction ops generalizing traced with
  | nil => rfl
  | cons op ops induction => rw [run_cons, run_cons, induction, call_step]

/-- The session is what the file is in. -/
structure Tracked (traced : Traced) : Prop where
  ready : traced.call.stopped = false → traced.call.Ready
  writing : ∀ session, traced.session = some session →
    ∃ stream, InSession traced.call session stream

end Traced

namespace IsoCall

theorem trapOnWrongDirection_cases (c : IsoCall) (wantWrite : Bool) :
    c.trapOnWrongDirection wantWrite = c ∨ c.trapOnWrongDirection wantWrite = c.stop := by
  rw [trapOnWrongDirection]
  split
  · exact .inl rfl
  · split
    · exact .inr rfl
    · exact .inl rfl

theorem trapOnStreamError_cases (c : IsoCall) :
    c.trapOnStreamError = c ∨ c.trapOnStreamError = c.stop := by
  rw [trapOnStreamError]
  split
  · exact .inr rfl
  · exact .inl rfl

/-- A write goes about the open file, and may end the program. -/
theorem plangWrite_cases {c : IsoCall} (running : c.stopped = false) (bytes : Text) :
    ∃ after, Moves c after ∧ (c.plangWrite bytes = after ∨ c.plangWrite bytes = after.stop) := by
  have cleared := Moves.clearerr c
  rw [plangWrite, abortIfClosed]
  split
  · exact ⟨c, .refl c, .inr rfl⟩
  · have still : (c.shared Call.clearerr).stopped = false := running
    rw [andThen_of_running still]
    obtain goes | stops := (c.shared Call.clearerr).trapOnWrongDirection_cases true
    · rw [goes, andThen_of_running still]
      exact ⟨_, cleared.trans (.put _ bytes), trapOnStreamError_cases _⟩
    · rw [stops]
      exact ⟨_, cleared, .inr rfl⟩

end IsoCall

namespace InSession

variable {c : IsoCall} {session : Session} {stream : Stream}

/-- A write either continues the session or ends the program with the session as it was. -/
theorem plangWrite (writing : InSession c session stream) (running : c.stopped = false)
    (bytes : Text) :
    ∃ after,
      InSession (c.plangWrite bytes)
        (if (c.plangWrite bytes).stopped then session else session.write bytes) after := by
  have is_open : ¬c.file.fp.isNone = true := by simp [writing.fp]
  have cleared := writing.clearerr
  have right_direction : (c.shared Call.clearerr).trapOnWrongDirection true =
      c.shared Call.clearerr := by
    rw [IsoCall.trapOnWrongDirection, cleared.readable]
    cases mode : session.mode <;> simp [Session.readable, mode]
  have still : (c.shared Call.clearerr).stopped = false := running
  rw [IsoCall.plangWrite, IsoCall.abortIfClosed, if_neg is_open,
    IsoCall.andThen_of_running still, right_direction, IsoCall.andThen_of_running still]
  generalize c.shared Call.clearerr = d at *
  by_cases nothing : bytes = []
  · have calm : ¬d.ferror = true := by simp [Call.ferror, cleared.fp]
    have same : session.write bytes = session := by simp [Session.write, nothing]
    rw [IsoCall.put, if_pos nothing, IsoCall.trapOnStreamError, if_neg calm, still, same, ite_self]
    exact ⟨_, cleared⟩
  · rw [IsoCall.put, if_neg nothing]
    rcases faults : d.libc.faults session.inode with _ | errno
    · have continued := cleared.fwrite bytes faults
      generalize written : (d.shared fun call => (call.fwrite bytes).2) = e at *
      have calm : ¬e.ferror = true := by simp [Call.ferror, continued.fp]
      have running : e.stopped = false := by
        rw [← written]
        exact still
      rw [IsoCall.trapOnStreamError, if_neg calm, running, if_neg Bool.false_ne_true]
      exact ⟨_, continued⟩
    · obtain ⟨refused, unchanged, error⟩ := cleared.fwrite_refused bytes faults
      generalize (d.shared fun call => (call.fwrite bytes).2) = e at *
      have failed : e.ferror = true := by simp [Call.ferror, unchanged.fp, error]
      refine ⟨refused, ?_⟩
      rw [IsoCall.trapOnStreamError, if_pos failed]
      exact unchanged.stop

end InSession

namespace Traced

/-- An opening begins the session it is said to. -/
theorem Tracked.of_begins {mode : OpenMode} {before after : IsoCall}
    (begins : IsoCall.Begins mode before after) : Tracked ⟨after, opened mode before after⟩ where
  ready := begins.ready
  writing := fun session open_session => by
    rcases stopped : after.stopped
    · obtain ⟨inode, stream, writing⟩ := begins.writing stopped
      have target : after.target = some (.file inode) := by
        rw [IsoCall.target, writing.fp, Option.map_some, writing.target]
        rfl
      simp only [opened, stopped, target, Option.some.injEq] at open_session
      subst open_session
      exact ⟨stream, writing⟩
    · simp [opened, stopped] at open_session

/-- An operation that ends the session leaves none. -/
theorem Tracked.of_ends {before after : IsoCall} (ends : IsoCall.Ends before after) :
    Tracked ⟨after, none⟩ where
  ready := ends.ready
  writing := nofun

theorem Tracked.write {traced : Traced} (tracked : Tracked traced)
    (running : traced.call.stopped = false) (bytes : Text) :
    Tracked
      ⟨traced.call.plangWrite bytes,
        if (traced.call.plangWrite bytes).stopped then traced.session
        else traced.session.map fun session => session.write bytes⟩ where
  ready := fun still => by
    obtain ⟨after, moves, continues | stops⟩ := IsoCall.plangWrite_cases running bytes
    · simp only [continues]
      exact (tracked.ready running).moves moves
    · rw [stops] at still
      cases still
  writing := fun session open_session => by
    cases before : traced.session with
    | none => simp [before] at open_session
    | some session_before =>
        obtain ⟨stream, writing⟩ := tracked.writing session_before before
        obtain ⟨after, written⟩ := writing.plangWrite running bytes
        rw [before, Option.map_some, ← apply_ite some, Option.some.injEq] at open_session
        rw [open_session] at written
        exact ⟨after, written⟩

theorem Tracked.writeNothing {traced : Traced} (tracked : Tracked traced)
    (running : traced.call.stopped = false) :
    Tracked ⟨traced.call.plangWriteNothing, traced.session⟩ := by
  rw [IsoCall.plangWriteNothing, IsoCall.abortIfClosed]
  split
  · exact ⟨nofun, fun session open_session =>
      (tracked.writing session open_session).imp fun _ writing => writing.stop⟩
  · exact ⟨fun _ => (tracked.ready running).moves (.clearerr _), fun session open_session =>
      (tracked.writing session open_session).elim fun _ writing => ⟨_, writing.clearerr⟩⟩

theorem Tracked.exit {traced : Traced} (tracked : Tracked traced) :
    Tracked ⟨traced.call.stop, traced.session⟩ :=
  ⟨nofun, fun session open_session =>
    (tracked.writing session open_session).imp fun _ writing => writing.stop⟩

/-- One operation. -/
theorem Tracked.step {traced : Traced} (tracked : Tracked traced) {op : TextOp}
    (fits : op.name.length < PLANG_MAX_NAME_LEN) : Tracked (traced.step op) := by
  rw [Traced.step]
  split
  · exact tracked
  · rename_i goes_on
    have running : traced.call.stopped = false := Bool.eq_false_iff.mpr goes_on
    have moves := IsoCall.Moves.finishText traced.call true
    have finished := (tracked.ready running).moves moves
    have still := moves.stopped.trans running
    cases op with
    | reset name => exact .of_ends (IsoCall.ends_plangReset finished still name)
    | rewrite name => exact .of_begins (IsoCall.begins_plangRewrite finished still fits)
    | extend name =>
        exact .of_begins (IsoCall.begins_openAt IsoCall.places_goToEnd nofun finished still fits)
    | update name =>
        exact .of_begins (IsoCall.begins_openAt IsoCall.places_front nofun finished still fits)
    | close => exact .of_ends (IsoCall.ends_plangClose finished)
    | write bytes => exact tracked.write running bytes
    | writeNothing => exact tracked.writeNothing running
    | exit => exact tracked.exit

/-- Every program. -/
theorem tracked_trace {c : IsoCall} (granted : c.Granted) (closed : c.file.fp = none)
    {ops : List TextOp} (fits : ∀ op ∈ ops, op.name.length < PLANG_MAX_NAME_LEN) :
    Tracked (trace c ops) := by
  have start : Tracked ⟨c, none⟩ :=
    ⟨fun _ => ⟨granted, fun _ stream fp => by
      rw [closed] at fp
      cases fp⟩, nofun⟩
  rw [trace]
  generalize (⟨c, none⟩ : Traced) = traced at *
  induction ops generalizing traced with
  | nil => exact start
  | cons op ops induction =>
      rw [run_cons]
      apply induction
      · exact fun later mem => fits later (List.mem_cons_of_mem _ mem)
      · exact start.step (fits op List.mem_cons_self)

/-- An operation that ends a session leaves the file with its last line seen to, unless it rewrites
the same file. -/
theorem contents_of_ends {c : IsoCall} (ready : c.Ready) (running : c.stopped = false)
    {op : TextOp} (ends : op.ends = true) (fits : op.name.length < PLANG_MAX_NAME_LEN)
    {inode : Nat} (created : inode < c.libc.next)
    (other : ∀ name, op = .rewrite name → (c.perform op).target ≠ some (.file inode)) :
    (c.perform op).libc.contents inode = (c.finishText true).libc.contents inode := by
  have moves := IsoCall.Moves.finishText c true
  have finished := ready.moves moves
  have still := moves.stopped.trans running
  have old := Nat.lt_of_lt_of_le created moves.grows.next
  cases op with
  | reset name => exact (IsoCall.ends_plangReset finished still name).keeps inode old
  | rewrite name =>
      exact (IsoCall.begins_plangRewrite finished still fits).keeps inode old
        fun _ => other name rfl
  | extend name =>
      exact (IsoCall.begins_openAt IsoCall.places_goToEnd nofun finished still fits).keeps inode old
        nofun
  | update name =>
      exact (IsoCall.begins_openAt IsoCall.places_front nofun finished still fits).keeps inode old
        nofun
  | close => exact (IsoCall.ends_plangClose finished).keeps inode old
  | write bytes => cases ends
  | writeNothing => cases ends
  | exit => cases ends

/-- While a file is written it holds what it held at the opening and what was written since, also
where the program ends there.  The operation that ends the session changes no byte of it; it ends
the last line of a file that was rewritten, and ending it again adds nothing. -/
theorem contents_trace {c : IsoCall} (granted : c.Granted) (closed : c.file.fp = none)
    {ops : List TextOp} (fits : ∀ op ∈ ops, op.name.length < PLANG_MAX_NAME_LEN)
    {session : Session} (open_session : (trace c ops).session = some session) :
    let written := (trace c ops).call
    written.libc.contents session.inode = session.expected ∧
    (∀ op : TextOp, written.stopped = false → op.ends = true →
      op.name.length < PLANG_MAX_NAME_LEN →
      (∀ name, op = .rewrite name → (written.perform op).target ≠ some (.file session.inode)) →
      ((written.perform op).libc.contents session.inode = session.expected ∨
        (written.perform op).libc.contents session.inode = lineEnded session.expected) ∧
      (session.mode = .rewrite →
        (written.perform op).libc.contents session.inode = lineEnded session.expected)) ∧
    (written.stopped = false → session.mode = .rewrite →
      ((written.finishText true).finishText true).libc.contents =
        (written.finishText true).libc.contents) := by
  intro written
  have tracked := tracked_trace granted closed fits
  obtain ⟨stream, writing⟩ := tracked.writing session open_session
  refine ⟨writing.contents, ?_, ?_⟩
  · intro op running ends op_fits other
    have ready := tracked.ready running
    rw [contents_of_ends ready running ends op_fits writing.created other]
    by_cases rewrite : session.mode = .rewrite
    · have line := writing.contents_finishText rewrite ready.reads
      exact ⟨.inr line, fun _ => line⟩
    · rw [writing.finishText_of_both rewrite]
      exact ⟨.inl writing.contents, fun mode => absurd mode rewrite⟩
  · intro running rewrite
    have ready := tracked.ready running
    have moves := IsoCall.Moves.finishText written true
    have again := IsoCall.Moves.finishText (written.finishText true) true
    obtain ⟨moved, ended⟩ := writing.finishText rewrite ready.reads
    funext inode
    by_cases same : inode = session.inode
    · have once := writing.contents_finishText rewrite ready.reads
      have twice := ended.contents_finishText rewrite (ready.moves moves).reads
      rw [← ended.contents, show session.ended.inode = session.inode from rfl, once,
        lineEnded_lineEnded] at twice
      rw [same, once]
      exact twice
    · apply again.others
      rw [moves.target, IsoCall.target, writing.fp, Option.map_some, writing.target]
      simpa using Ne.symm same

theorem granted_started : IsoCall.started.Granted where
  reads := fun _ => rfl
  updates := fun _ => rfl
  known := nofun
  room := NameTable.roomFor_empty 0
  notStandard := nofun

theorem contents_trace_unended :
    (trace .started [.rewrite ['f'], .write ['a']]).call.libc.contents 0 = ['a'] ∧
      ((trace .started [.rewrite ['f'], .write ['a']]).call.perform .close).libc.contents 0 =
        ['a', '\n'] := by
  have fits : ∀ op ∈ [TextOp.rewrite ['f'], .write ['a']],
      op.name.length < PLANG_MAX_NAME_LEN := by decide
  have open_session : (trace .started [.rewrite ['f'], .write ['a']]).session =
      some ⟨.rewrite, 0, [], ['a']⟩ := rfl
  obtain ⟨held, ends, -⟩ := contents_trace granted_started rfl fits open_session
  exact ⟨held, (ends .close rfl rfl (by decide) nofun).2 rfl⟩

/-- An update writes over what the file held, it does not follow it. -/
theorem update_overwrites :
    (trace .started [.rewrite ['f'], .write ['a', 'b', '\n'], .update ['f'], .write ['z']]).session =
        some ⟨.update, 0, ['a', 'b', '\n'], ['z']⟩ ∧
      ((trace .started [.rewrite ['f'], .write ['a', 'b', '\n'], .update ['f'],
        .write ['z']]).call.perform .close).libc.contents 0 ≠
        lineEnded (['a', 'b', '\n'] ++ ['z']) :=
  ⟨rfl, by decide⟩

end Traced

end Runtime

end Plang
