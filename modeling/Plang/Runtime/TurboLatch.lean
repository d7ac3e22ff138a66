import Plang.Runtime.TurboMachine

/-!
# The latch of `InOutRes`

While an error is pending no entry point but `Assign` and `SetTextBuf` does anything, so `IOResult`
delivers the first error since it was last asked.  `SetTextBuf` of a pipe gives up what has been read
ahead, whether an error is pending or not.
-/

namespace Plang

namespace Runtime

open Stdio

namespace TurboCall

variable {c : TurboCall}

theorem unsuppressed (clear : c.inOutRes = 0) : ¬c.tpSuppressedByPendingError = true := by
  simp [tpSuppressedByPendingError, clear]

/-- Where no error is pending, an open file can be used. -/
theorem tpFileReady_of_clear (clear : c.inOutRes = 0) (opened : c.file.fp.isNone = false) :
    c.tpFileReady = (true, c.shared Call.clearerr) := by
  rw [tpFileReady, if_neg (unsuppressed clear), opened]
  rfl

theorem tpFileReady_of_pending (pending : c.inOutRes ≠ 0) : c.tpFileReady = (false, c) := by
  simp [tpFileReady, tpSuppressedByPendingError, pending]

theorem ifReady_of_pending (pending : c.inOutRes ≠ 0) (body : TurboCall → TurboCall) :
    c.ifReady body = c := by
  rw [ifReady, tpFileReady_of_pending pending]

theorem ifReadyOr_of_pending {α : Type} (pending : c.inOutRes ≠ 0) (answer : α)
    (body : TurboCall → α × TurboCall) : c.ifReadyOr answer body = (answer, c) := by
  rw [ifReadyOr, tpFileReady_of_pending pending]

theorem suppressed_of_pending (pending : c.inOutRes ≠ 0) : c.tpSuppressedByPendingError = true := by
  simpa [tpSuppressedByPendingError] using pending

theorem sized_of_pending (pending : c.inOutRes ≠ 0) (recSize : Int)
    (openIt : TurboCall → TurboCall) : c.sized recSize openIt = c := by
  rw [sized, if_pos (suppressed_of_pending pending)]

theorem read_of_pending (pending : c.inOutRes ≠ 0) (reading : Reading) : c.read reading = c := by
  cases reading with
  | i64 => exact congrArg Prod.snd (ifReadyOr_of_pending pending _ _)
  | u64 => exact congrArg Prod.snd (ifReadyOr_of_pending pending _ _)
  | f64 => exact congrArg Prod.snd (ifReadyOr_of_pending pending _ _)
  | char => exact congrArg Prod.snd (ifReadyOr_of_pending pending _ _)
  | strFixed n => exact congrArg Prod.snd (ifReadyOr_of_pending pending _ _)
  | sstr cap => exact congrArg Prod.snd (ifReadyOr_of_pending pending _ _)
  | binary elemSize => exact congrArg Prod.snd (ifReadyOr_of_pending pending _ _)

theorem write_of_pending (pending : c.inOutRes ≠ 0) (writing : Writing) :
    c.write writing = c := by
  cases writing <;> exact ifReady_of_pending pending _

/-- `SetTextBuf` changes nothing but the C library. -/
theorem plangTpSettextbuf_eq (size : Int) (ahead : Nat) :
    ∃ libc, c.plangTpSettextbuf size ahead = { c with libc } := by
  rw [plangTpSettextbuf]
  split
  · exact ⟨c.libc, rfl⟩
  · split
    · exact ⟨c.libc, rfl⟩
    · exact ⟨_, rfl⟩

/-- The variable is open on standard input. -/
def OnStdin (c : TurboCall) : Prop := ∃ stream, c.file.fp = some stream ∧ stream.target = .stdin

/-- A `SetTextBuf` gives up bytes that standard input was still to deliver. -/
def GivesUpInput (c : TurboCall) (size : Int) (ahead : Nat) : Prop :=
  0 < size ∧ 0 < ahead ∧ c.OnStdin ∧ c.libc.input ≠ []

/-- `SetTextBuf` does nothing if and only if it gives up no input. -/
theorem plangTpSettextbuf_eq_self_iff (size : Int) (ahead : Nat) :
    c.plangTpSettextbuf size ahead = c ↔ ¬c.GivesUpInput size ahead := by
  rcases opened : c.file.fp with _ | stream
  · have closed : ¬c.OnStdin := by simp [OnStdin, opened]
    refine iff_of_true ?_ fun gives => closed gives.2.2.1
    rw [plangTpSettextbuf, opened]
  · by_cases none_ : size ≤ 0
    · refine iff_of_true ?_ fun gives => absurd gives.1 (Int.not_lt.mpr none_)
      simp only [plangTpSettextbuf, opened, if_pos none_]
    · by_cases standard : stream.target = .stdin
      · have given : c.plangTpSettextbuf size ahead =
            { c with libc := { c.libc with input := c.libc.input.drop ahead } } := by
          simp only [plangTpSettextbuf, opened, if_neg none_, Libc.setvbuf, standard]
        have here : c.OnStdin := ⟨stream, opened, standard⟩
        rw [given, GivesUpInput]
        constructor
        · rintro same ⟨-, some_, -, more⟩
          have dropped : c.libc.input.drop ahead = c.libc.input :=
            congrArg (fun call : TurboCall => call.libc.input) same
          have length := congrArg List.length dropped
          have := List.length_pos_of_ne_nil more
          rw [List.length_drop] at length
          omega
        · intro keeps
          have dropped : c.libc.input.drop ahead = c.libc.input := by
            by_cases more : c.libc.input = []
            · rw [more, List.drop_nil]
            · have zero : ahead = 0 := by
                by_contra some_
                exact keeps ⟨Int.not_le.mp none_, Nat.pos_of_ne_zero some_, here, more⟩
              rw [zero, List.drop_zero]
          rw [dropped]
      · have elsewhere : ¬c.OnStdin := by
          rintro ⟨other, same, stdin⟩
          obtain rfl := Option.some.inj (opened.symm.trans same)
          exact standard stdin
        refine iff_of_true ?_ fun gives => elsewhere gives.2.2.1
        simp only [plangTpSettextbuf, opened, if_neg none_, Libc.setvbuf]

/-- While an error is pending, an entry point does nothing. -/
theorem perform_of_pending (pending : c.inOutRes ≠ 0) {op : FileOperation}
    (other : ∀ name, op ≠ .assign name) (unbuffered : ∀ size ahead, op ≠ .settextbuf size ahead) :
    c.perform op = c := by
  have suppressed := suppressed_of_pending pending
  cases op with
  | assign name => exact absurd rfl (other name)
  | reset => exact if_pos suppressed
  | rewrite => exact if_pos suppressed
  | append => exact if_pos suppressed
  | resetSized recSize => exact sized_of_pending pending _ _
  | rewriteSized recSize => exact sized_of_pending pending _ _
  | close => exact ifReady_of_pending pending _
  | erase => exact if_pos suppressed
  | rename newName => exact if_pos suppressed
  | filepos => exact congrArg Prod.snd (ifReadyOr_of_pending pending _ _)
  | filesize => exact congrArg Prod.snd (ifReadyOr_of_pending pending _ _)
  | seek n => exact ifReady_of_pending pending _
  | truncate => exact ifReady_of_pending pending _
  | blockread count hasResult => exact congrArg Prod.snd (ifReadyOr_of_pending pending _ _)
  | blockwrite buf count hasResult => exact congrArg Prod.snd (ifReadyOr_of_pending pending _ _)
  | flush => exact ifReady_of_pending pending _
  | settextbuf size ahead => exact absurd rfl (unbuffered size ahead)
  | eof => exact congrArg Prod.snd (if_pos suppressed)
  | eoln => exact congrArg Prod.snd (if_pos suppressed)
  | seekeof => exact congrArg Prod.snd (ifReadyOr_of_pending pending _ _)
  | seekeoln => exact congrArg Prod.snd (ifReadyOr_of_pending pending _ _)
  | readln => exact ifReady_of_pending pending _
  | read reading => exact read_of_pending pending reading
  | write writing => exact write_of_pending pending writing

end TurboCall

namespace TurboState

variable {V : Type*} [DecidableEq V] {state : TurboState V}

omit [DecidableEq V] in
/-- A `SetTextBuf` gives up bytes that standard input was still to deliver. -/
def GivesUpInput (state : TurboState V) (f : V) (op : FileOperation) : Prop :=
  ∃ size ahead, op = .settextbuf size ahead ∧ (state.enter f).GivesUpInput size ahead

/-- While an error is pending, an entry point does nothing if and only if it does not give up
input. -/
theorem perform_eq_self_iff (pending : state.inOutRes ≠ 0) (f : V) {op : FileOperation}
    (other : ∀ name, op ≠ .assign name) :
    state.perform f op = state ↔ ¬state.GivesUpInput f op := by
  by_cases buffers : ∃ size ahead, op = .settextbuf size ahead
  · obtain ⟨size, ahead, rfl⟩ := buffers
    have gives : state.GivesUpInput f (.settextbuf size ahead) ↔
        (state.enter f).GivesUpInput size ahead := by
      constructor
      · rintro ⟨_, _, same, gives⟩
        cases same
        exact gives
      · exact fun gives => ⟨size, ahead, rfl, gives⟩
    rw [gives, ← TurboCall.plangTpSettextbuf_eq_self_iff]
    constructor
    · intro same
      have entered := congrArg (fun now => now.enter f) same
      rwa [perform, enter_leave] at entered
    · intro same
      rw [perform, TurboCall.perform, same, leave_enter]
  · have unbuffered : ∀ size ahead, op ≠ .settextbuf size ahead :=
      fun size ahead same => buffers ⟨size, ahead, same⟩
    refine iff_of_true ?_ fun gives => buffers (let ⟨size, ahead, same, _⟩ := gives
      ⟨size, ahead, same⟩)
    rw [perform, TurboCall.perform_of_pending pending other unbuffered, leave_enter]

/-- An operation leaves a pending error as it is. -/
theorem inOutRes_perform_of_pending (pending : state.inOutRes ≠ 0) (f : V) (op : FileOperation) :
    (state.perform f op).inOutRes = state.inOutRes := by
  by_cases assigns : ∃ name, op = .assign name
  · obtain ⟨name, rfl⟩ := assigns
    rfl
  · by_cases gives : state.GivesUpInput f op
    · obtain ⟨size, ahead, rfl, -⟩ := gives
      obtain ⟨libc, same⟩ := (state.enter f).plangTpSettextbuf_eq size ahead
      exact congrArg TurboCall.inOutRes same
    · exact congrArg inOutRes ((perform_eq_self_iff pending f fun name same =>
        assigns ⟨name, same⟩).mpr gives)

/-- A pending error stays until `IOResult` asks for it or the program ends with it. -/
theorem step_of_pending (pending : state.inOutRes ≠ 0) {event : Event V}
    (unasked : event ≠ .ioResult) :
    (state.step event).stopped.isSome ∨ (state.step event).inOutRes = state.inOutRes := by
  by_cases ended : state.stopped = none
  · rw [step_of_running ended]
    cases event with
    | ioResult => exact absurd rfl unasked
    | ioCheck => exact Or.inl (by simp [handle, plangIocheck, plangTpIoresult, pending])
    | setFileMode mode => exact Or.inr rfl
    | system libc => exact Or.inr rfl
    | call f op => exact Or.inr (inOutRes_perform_of_pending pending f op)
  · exact Or.inr (by rw [step_of_stopped (Option.isSome_iff_ne_none.mpr ended)])

/-- A program that has ended does not go on. -/
theorem stopped_step (event : Event V) (ended : state.stopped.isSome) :
    (state.step event).stopped.isSome := by
  rwa [step_of_stopped ended]

/-- The first error that a call leaves behind in a run, zero if none does. -/
def firstError (state : TurboState V) (events : List (Event V)) : Int :=
  Runs.firstCode step inOutRes state events

/-- `IOResult` delivers the first error since it was last asked. -/
theorem inOutRes_run {events : List (Event V)} (clear : state.inOutRes = 0)
    (unasked : .ioResult ∉ events) (running : (state.run events).stopped = none) :
    (state.run events).inOutRes = state.firstError events := by
  have ended_step : ∀ (now : TurboState V) event, now.stopped.isSome →
      (now.step event).stopped.isSome := fun _ => stopped_step
  have latched : ∀ (now : TurboState V), ∀ event ∈ events, now.inOutRes ≠ 0 →
      (now.step event).stopped.isSome ∨ (now.step event).inOutRes = now.inOutRes :=
    fun _ event member pending =>
      step_of_pending pending fun same => unasked (same ▸ member)
  exact Runs.code_run_eq_firstCode (fun now : TurboState V => now.stopped.isSome) ended_step latched
    clear (Option.not_isSome_iff_eq_none.mpr running)

/-- What the program is left in by the end of a run with `IOResult` in it. -/
theorem run_append (before after : List (Event V)) :
    state.run (before ++ after) = (state.run before).run after :=
  Runs.run_append state before after

/-- `IOResult` leaves no error pending in a program that goes on. -/
theorem inOutRes_step_ioResult (running : (state.step .ioResult).stopped = none) :
    (state.step .ioResult).inOutRes = 0 := by
  have before : state.stopped = none := by
    by_contra ended
    have same := step_of_stopped (Option.isSome_iff_ne_none.mpr ended) Event.ioResult
    exact ended (by rwa [same] at running)
  rw [step_of_running before]
  rfl

/-- A program that goes on has been going on. -/
theorem stopped_of_run {before after : List (Event V)}
    (running : (state.run (before ++ after)).stopped = none) :
    (state.run before).stopped = none := by
  by_contra ended
  have done : ((state.run before).run after).stopped.isSome :=
    Runs.ended_run (fun now : TurboState V => now.stopped.isSome) (fun _ => stopped_step)
      (Option.isSome_iff_ne_none.mpr ended)
  rw [run_append] at running
  exact Option.not_isSome_iff_eq_none.mpr running done

/-- The event changes nothing if it is a call, of anything but `Assign`, with an error pending. -/
def LatchedAt (state : TurboState V) (event : Event V) : Prop :=
  ∀ f op, event = .call f op → (∀ name, op ≠ .assign name) → state.stopped = none →
    state.inOutRes ≠ 0 → state.step event = state

/-- With an error pending the event does not give up input. -/
def KeepsInputAt (state : TurboState V) (event : Event V) : Prop :=
  ∀ f op, event = .call f op → state.stopped = none → state.inOutRes ≠ 0 →
    ¬state.GivesUpInput f op

theorem latchedAt_iff (state : TurboState V) (event : Event V) :
    LatchedAt state event ↔ KeepsInputAt state event := by
  constructor
  · rintro latched f op rfl running pending
    by_cases assigns : ∃ name, op = .assign name
    · obtain ⟨name, rfl⟩ := assigns
      rintro ⟨_, _, same, -⟩
      cases same
    · have other : ∀ name, op ≠ .assign name := fun name same => assigns ⟨name, same⟩
      have same := latched f op rfl other running pending
      rw [step_of_running running] at same
      exact (perform_eq_self_iff pending f other).mp same
  · rintro keeps f op rfl other running pending
    rw [step_of_running running]
    exact (perform_eq_self_iff pending f other).mpr (keeps f op rfl running pending)

/-- A program with one file variable, which names a file that is not there. -/
def nothingThere : TurboState Unit where
  libc := {}
  reals := { format := fun _ _ _ _ => [], fixed := fun _ _ _ => [], parse := fun _ => none }
  files := fun _ => { name := ['a'], mode := .fmClosed }

/-- A program with the file variables `false`, which names standard input, and `true`, which names a
file that is not there.  Standard input is a pipe with three bytes in it. -/
def pipedInput : TurboState Bool where
  libc := { input := ['a', 'b', 'c'] }
  reals := { format := fun _ _ _ _ => [], fixed := fun _ _ _ => [], parse := fun _ => none }
  files := fun missing => { name := if missing then ['a'] else [], mode := .fmClosed }

/-- Standard input is opened and a character read from it, the opening of the other file fails, and
then the two bytes that have been read ahead are given up. -/
def bufferedInVain : List (Event Bool) :=
  [.call false .reset, .call false (.read .char), .call true .reset, .call false (.settextbuf 128 2)]

end TurboState

end Runtime

end Plang
