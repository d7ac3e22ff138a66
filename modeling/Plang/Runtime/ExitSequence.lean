import Plang.Library.Shutdown
import Plang.Runtime.Termination

/-!
# The exit sequence

A program that ends shuts down: its finalisers are called once each, the last one registered first,
then whatever it leaves in `ExitProc`, and its exit code is that of the last thing that asked for
the end.  This is what happens unless a procedure called from `ExitProc` has filled `ExitProc` again
when it halts or fails.
-/

namespace Plang

namespace Runtime

namespace Termination

open Shutdown (Sequence)

variable {α : Type*} {turbo : Bool}

/-- The call as one of a program that shuts down. -/
def Call.seen : Call α → Shutdown.Call α
  | .finaliser fn => .hook fn
  | .exitProc fn => .handler fn

/-- The event of the shutdown sequence that an event of the program is. -/
def Event.seen (turbo : Bool) : Event α → Option (Shutdown.Event α)
  | .moduleFinalPush fn => some (.register fn)
  | .assignExitProc value => if turbo then some (.install value) else none
  | .assignExitCode _ => none
  | .return => some .goOn
  | .halt _ _ => some .goOn
  | .runerror _ _ => some .goOn

/-- The requests to end the program. -/
inductive Request where
  | mainEnd
  | halt (status : Int) (addr : Nat)
  | runerror (code : Int) (addr : Nat)

def Request.terminator : Request → Terminator
  | .mainEnd => .mainEnd
  | .halt status _ => .halt (clampExitCode (toInt32 status))
  | .runerror code addr =>
      .runerror (toUInt16 code) addr (clampExitCode (toInt32 (toUInt16 code)))

/-- The exit code asked for; the end of the program block asks for that in `ExitCode`. -/
def Request.code (turbo : Bool) (exitCode : Int) : Request → Int
  | .mainEnd => if turbo then exitCode else 0
  | .halt status _ => clampExitCode (toInt32 status)
  | .runerror code _ => clampExitCode (toInt32 (toUInt16 code))

/-- The request that is made by an event, or was made before it. -/
def Event.request (before : Request) : Event α → Request
  | .halt status addr => .halt status addr
  | .runerror code addr => .runerror code addr
  | .moduleFinalPush _ => before
  | .assignExitProc _ => before
  | .assignExitCode _ => before
  | .return => before

/-- Whether the event is a halt or an error. -/
def Event.interrupts : Event α → Bool
  | .halt _ _ => true
  | .runerror _ _ => true
  | .moduleFinalPush _ => false
  | .assignExitProc _ => false
  | .assignExitCode _ => false
  | .return => false

section Runs

variable (turbo : Bool) (events : List (Event α))

/-- The program after some events. -/
def after : Process α := Runs.run (Process.step turbo) (Process.start turbo) events

/-- The events of a program that shuts down. -/
def seen : List (Shutdown.Event α) := events.filterMap (Event.seen turbo)

/-- The last thing that asked for the end. -/
def lastRequest : Request := events.foldl Event.request .mainEnd

/-- The finalisers called. -/
def finalisersRun : List α := Shutdown.hooks ((after turbo events).ran.map Call.seen)

/-- The procedures called from `ExitProc`. -/
def exitProcsRun : List α := Shutdown.handlers ((after turbo events).ran.map Call.seen)

/-- The finalisers registered before the end. -/
def registered : List α := Shutdown.registered (seen turbo events)

/-- The procedures in `ExitProc` whenever a program that shuts down comes to it. -/
def reached : List α :=
  Shutdown.handlers (Runs.run Sequence.step Sequence.start (seen turbo events)).ran

/-- The program ends with the last of the events. -/
def EndsWith : Prop :=
  ∃ before last, events = before ++ [last] ∧ (after turbo before).hasExited = false ∧
    (after turbo events).hasExited = true

/-- The program shuts down as it should. -/
structure Lawful : Prop where
  finalisers : finalisersRun turbo events = (registered turbo events).reverse
  exitProcs : exitProcsRun turbo events = reached turbo events
  code : (after turbo events).status =
    .exited ((lastRequest events).code turbo (after turbo events).exitCode)

end Runs

/-- Where the program is in a procedure called from `ExitProc`, it halts or fails only with nothing
in `ExitProc`. -/
def LeavesEmpty (process : Process α) (event : Event α) : Prop :=
  event.interrupts = true →
    match process.status with
    | .running _ (.exitProc _) _ => process.exitProc = none
    | .running _ (.finaliser _) _ => True
    | .main => True
    | .exited _ => True

theorem LeavesEmpty.emptied {process : Process α} {event : Event α}
    (leaves : LeavesEmpty process event) (interrupts : event.interrupts = true)
    (terminator : Terminator) (fn : α) (below : List (Terminator × Call α))
    (status : process.status = .running terminator (.exitProc fn) below) :
    process.exitProc = none := by
  have empty := leaves interrupts
  rwa [status] at empty

/-! ### The program shuts down -/

/-- The shutdown sequence behind an event. -/
def follow (sequence : Sequence α) (event : Option (Shutdown.Event α)) : Sequence α :=
  event.elim sequence sequence.step

/-- The registered finalisers while these are pending. -/
def remaining (turbo : Bool) (pending : List α) : List (Finaliser α) :=
  pending.map .routine ++ if turbo then [.tpRunExitproc] else []

/-- The stages of a program that is ending. -/
def Stage (turbo : Bool) (sequence : Sequence α) (finalisers : List (Finaliser α)) :
    Status α → Prop
  | .main =>
      sequence.begun = false ∧ sequence.finished = false ∧
        finalisers = remaining turbo sequence.pending
  | .running _ (.finaliser _) _ =>
      sequence.begun = true ∧ sequence.finished = false ∧
        finalisers = remaining turbo sequence.pending
  | .running _ (.exitProc _) _ =>
      sequence.begun = true ∧ sequence.finished = false ∧ turbo = true ∧ sequence.pending = [] ∧
        finalisers = []
  | .exited _ => sequence.begun = true ∧ sequence.finished = true

/-- The program shuts down like the sequence. -/
structure Follows (turbo : Bool) (process : Process α) (sequence : Sequence α) : Prop where
  ran : process.ran.map Call.seen = sequence.ran
  exitProc : process.exitProc = sequence.inForce
  closed : turbo = false → sequence.inForce = none
  stage : Stage turbo sequence process.moduleFinalisers process.status

/-- The part of the agreement that holds at every stage. -/
structure Agrees (turbo : Bool) (process : Process α) (sequence : Sequence α) : Prop where
  ran : process.ran.map Call.seen = sequence.ran
  exitProc : process.exitProc = sequence.inForce
  closed : turbo = false → sequence.inForce = none
  begun : sequence.begun = true
  live : sequence.finished = false

namespace Agrees

variable {process : Process α} {sequence : Sequence α} (agrees : Agrees turbo process sequence)
include agrees

/-- With nothing in `ExitProc` and no finaliser left, the program exits. -/
theorem exit_follows (spent : sequence.pending = []) (empty : sequence.inForce = none)
    (terminator : Terminator) :
    Follows turbo (Process.exit turbo terminator { process with moduleFinalisers := [] })
      sequence.next := by
  have finished : sequence.next = { sequence with finished := true } := by
    simp only [Sequence.next, spent, empty]
  rw [finished]
  constructor
  · cases terminator <;> exact agrees.ran
  · cases terminator <;> exact agrees.exitProc
  · exact agrees.closed
  · cases terminator <;> exact ⟨agrees.begun, rfl⟩

/-- What is in `ExitProc` is called, with no finaliser left. -/
theorem tpRunExitproc_follows (called : turbo = true) (spent : sequence.pending = [])
    (nothing : process.moduleFinalisers = []) (terminator : Terminator)
    (below : List (Terminator × Call α)) :
    Follows turbo
      (Process.tpRunExitproc terminator below (Process.finalsRun turbo terminator below) process)
      sequence.next := by
  have same := agrees.exitProc
  rw [Process.tpRunExitproc]
  cases held : process.exitProc with
  | none =>
      rw [held] at same
      have leaves := agrees.exit_follows spent same.symm terminator
      rwa [Process.finalsRun, nothing, Process.moduleFinalsRun]
  | some fn =>
      rw [held] at same
      have taken : sequence.next =
          { sequence with inForce := none, ran := sequence.ran ++ [.handler fn] } := by
        simp only [Sequence.next, spent, ← same]
      rw [taken]
      constructor
      · simp [Process.enter, agrees.ran, Call.seen]
      · rfl
      · exact fun _ => rfl
      · exact ⟨agrees.begun, agrees.live, called, spent, nothing⟩

/-- The registered finalisers go on running. -/
theorem finalsRun_follows
    (registered : process.moduleFinalisers = remaining turbo sequence.pending)
    (terminator : Terminator) (below : List (Terminator × Call α)) :
    Follows turbo (Process.finalsRun turbo terminator below process) sequence.next := by
  rw [Process.finalsRun, registered, remaining]
  cases pending : sequence.pending with
  | cons fn later =>
      have taken : sequence.next =
          { sequence with pending := later, ran := sequence.ran ++ [.hook fn] } := by
        simp only [Sequence.next, pending]
      rw [taken]
      constructor
      · simp [Process.moduleFinalsRun, Process.enter, agrees.ran, Call.seen]
      · exact agrees.exitProc
      · exact agrees.closed
      · exact ⟨agrees.begun, agrees.live, rfl⟩
  | nil =>
      cases called : turbo with
      | false =>
          have leaves := agrees.exit_follows pending (agrees.closed called) terminator
          rwa [called] at leaves
      | true =>
          have emptied : Agrees turbo { process with moduleFinalisers := [] } sequence :=
            ⟨agrees.ran, agrees.exitProc, agrees.closed, agrees.begun, agrees.live⟩
          have goes := emptied.tpRunExitproc_follows called pending rfl terminator below
          rw [called] at goes
          exact goes

end Agrees

namespace Follows

variable {process : Process α} {sequence : Sequence α} (follows : Follows turbo process sequence)
include follows

/-- Once the end has begun, only what depends on the stage is left to say. -/
theorem agrees (live : sequence.finished = false) :
    Agrees turbo process { sequence with begun := true } :=
  ⟨follows.ran, follows.exitProc, follows.closed, rfl, live⟩

theorem over_eq : sequence.finished = process.hasExited := by
  have stage := follows.stage
  rw [Process.hasExited]
  cases status : process.status with
  | main =>
      rw [status] at stage
      exact stage.2.1
  | running terminator call below =>
      rw [status] at stage
      cases call with
      | finaliser fn => exact stage.2.1
      | exitProc fn => exact stage.2.1
  | exited code =>
      rw [status] at stage
      exact stage.2

/-- Control goes on by itself: a routine returns, or the program block ends. -/
theorem comeBack_follows (live : sequence.finished = false) :
    Follows turbo (process.comeBack turbo) ({ sequence with begun := true } : Sequence α).next := by
  have agrees := follows.agrees live
  have stage := follows.stage
  rw [Process.comeBack]
  cases status : process.status with
  | main =>
      rw [status] at stage
      exact agrees.finalsRun_follows stage.2.2 .mainEnd []
  | running terminator call below =>
      rw [status] at stage
      cases call with
      | finaliser fn => exact agrees.finalsRun_follows stage.2.2 terminator below
      | exitProc fn =>
          obtain ⟨_, _, called, spent, nothing⟩ := stage
          exact agrees.tpRunExitproc_follows called spent nothing terminator below
  | exited code =>
      rw [status] at stage
      rw [stage.2] at live
      cases live

/-- The finalisers are those still pending, or `ExitProc` is being emptied. -/
theorem remaining_or_emptying (live : sequence.finished = false) :
    process.moduleFinalisers = remaining turbo sequence.pending ∨
      (sequence.pending = [] ∧ process.moduleFinalisers = [] ∧
        ∃ terminator fn below, process.status = .running terminator (.exitProc fn) below) := by
  have stage := follows.stage
  cases status : process.status with
  | main =>
      rw [status] at stage
      exact .inl stage.2.2
  | running terminator call below =>
      rw [status] at stage
      cases call with
      | finaliser fn => exact .inl stage.2.2
      | exitProc fn => exact .inr ⟨stage.2.2.2.1, stage.2.2.2.2, terminator, fn, below, rfl⟩
  | exited code =>
      rw [status] at stage
      rw [stage.2] at live
      cases live

/-- Control goes on by a halt or an error, with nothing in `ExitProc` where a procedure called from
there is interrupted. -/
theorem interrupt_follows (live : sequence.finished = false)
    (empty : ∀ terminator fn below, process.status = .running terminator (.exitProc fn) below →
      process.exitProc = none)
    (terminator : Terminator) (errorAddr : Option Nat) (exitCode : Int) :
    Follows turbo
      (Process.finalsRun turbo terminator process.interrupted { process with errorAddr, exitCode })
      ({ sequence with begun := true } : Sequence α).next := by
  have agrees : Agrees turbo { process with errorAddr, exitCode } { sequence with begun := true } :=
    ⟨follows.ran, follows.exitProc, follows.closed, rfl, live⟩
  rcases follows.remaining_or_emptying live with registered | ⟨spent, nothing, t, fn, below, status⟩
  · exact agrees.finalsRun_follows registered terminator _
  · have clear : sequence.inForce = none :=
      follows.exitProc.symm.trans (empty t fn below status)
    have leaves := agrees.exit_follows spent clear terminator
    rw [Process.finalsRun, nothing]
    exact leaves

/-- A program that has ended does nothing more. -/
theorem follow_of_exited (exited : process.hasExited = true) (event : Option (Shutdown.Event α)) :
    follow sequence event = sequence := by
  have finished : sequence.finished = true := follows.over_eq.trans exited
  have begun : sequence.begun = true := by
    have stage := follows.stage
    cases status : process.status with
    | main => simp [Process.hasExited, status] at exited
    | running terminator call below => simp [Process.hasExited, status] at exited
    | exited code =>
        rw [status] at stage
        exact stage.1
  cases event with
  | none => rfl
  | some event => cases event <;> simp [follow, Sequence.step, finished, begun]

/-- An initialiser registers a finaliser; no routine called at the end does. -/
theorem moduleFinalPush_follows (live : sequence.finished = false) (fn : α) :
    Follows turbo (process.moduleFinalPush fn) (sequence.step (.register fn)) := by
  have stage := follows.stage
  rw [Process.moduleFinalPush, Sequence.step]
  cases status : process.status with
  | main =>
      rw [status] at stage
      obtain ⟨idle, _, registered⟩ := stage
      rw [if_neg (by simp [idle])]
      refine ⟨follows.ran, follows.exitProc, follows.closed, idle, live, ?_⟩
      simp [registered, remaining]
  | running terminator call below =>
      rw [status] at stage
      have begun : sequence.begun = true := by
        cases call with
        | finaliser fn => exact stage.1
        | exitProc fn => exact stage.1
      rw [if_pos begun]
      exact follows
  | exited code =>
      rw [status] at stage
      rw [if_pos stage.1]
      exact follows

theorem assignExitProc_follows (live : sequence.finished = false) (value : Option α) :
    Follows turbo (process.act turbo (.assignExitProc value))
      (follow sequence (Event.seen turbo (.assignExitProc value))) := by
  rw [Process.act, Event.seen]
  cases called : turbo with
  | false =>
      rw [called] at follows
      exact follows
  | true =>
      have installed : sequence.step (.install value) = { sequence with inForce := value } := by
        simp [Sequence.step, live]
      rw [called] at follows
      rw [if_pos rfl, if_pos rfl, follow, Option.elim_some, installed]
      exact ⟨follows.ran, rfl, fun other => absurd other (by simp), follows.stage⟩

theorem assignExitCode_follows (value : Int) :
    Follows turbo (process.act turbo (.assignExitCode value)) sequence := by
  rw [Process.act]
  split
  · exact ⟨follows.ran, follows.exitProc, follows.closed, follows.stage⟩
  · exact follows

/-- One event keeps the agreement, under the condition. -/
theorem step_follows {event : Event α} (leaves : LeavesEmpty process event) :
    Follows turbo (process.step turbo event) (follow sequence (event.seen turbo)) := by
  rw [Process.step]
  cases exited : process.hasExited with
  | true => rwa [if_pos rfl, follows.follow_of_exited exited]
  | false =>
      have live : sequence.finished = false := follows.over_eq.trans exited
      have goOn : follow sequence (some .goOn) = ({ sequence with begun := true }).next := by
        simp [follow, Sequence.step, live]
      rw [if_neg (by simp)]
      cases event with
      | moduleFinalPush fn => exact follows.moduleFinalPush_follows live fn
      | assignExitProc value => exact follows.assignExitProc_follows live value
      | assignExitCode value => exact follows.assignExitCode_follows value
      | «return» =>
          rw [Event.seen, goOn]
          exact follows.comeBack_follows live
      | halt status addr =>
          rw [Event.seen, goOn]
          exact follows.interrupt_follows live (leaves.emptied rfl) _ _ _
      | runerror code addr =>
          rw [Event.seen, goOn]
          exact follows.interrupt_follows live (leaves.emptied rfl) _ _ _

end Follows

theorem follows_start : Follows turbo (Process.start turbo : Process α) Sequence.start :=
  ⟨rfl, rfl, fun _ => rfl, rfl, rfl, by simp [remaining, Process.start, Sequence.start]⟩

theorem run_seen (sequence : Sequence α) (events : List (Event α)) :
    Runs.run Sequence.step sequence (seen turbo events) =
      events.foldl (fun sequence event => follow sequence (event.seen turbo)) sequence := by
  induction events generalizing sequence with
  | nil => rfl
  | cons event events induction =>
      rw [List.foldl_cons, ← induction, seen, List.filterMap_cons]
      cases event.seen turbo with
      | none => rfl
      | some other => rfl

theorem run_seen_concat (sequence : Sequence α) (before : List (Event α)) (event : Event α) :
    Runs.run Sequence.step sequence (seen turbo (before ++ [event])) =
      follow (Runs.run Sequence.step sequence (seen turbo before)) (event.seen turbo) := by
  rw [run_seen, run_seen, List.foldl_append]
  rfl

/-- A run under the condition. -/
theorem run_follows {process : Process α} {sequence : Sequence α} {events : List (Event α)}
    (follows : Follows turbo process sequence)
    (along : Runs.Along (Process.step turbo) LeavesEmpty process events) :
    Follows turbo (Runs.run (Process.step turbo) process events)
      (Runs.run Sequence.step sequence (seen turbo events)) := by
  induction events generalizing process sequence with
  | nil => exact follows
  | cons event events induction =>
      have later := induction (follows.step_follows along.1) along.2
      rw [run_seen] at later ⊢
      exact later

/-! ### The exit code -/

/-- The program is on its way to the end that was asked for. -/
def Heeds (turbo : Bool) (process : Process α) (request : Request) : Prop :=
  match process.status with
  | .main => request = .mainEnd
  | .running terminator _ _ => terminator = request.terminator
  | .exited code => code = request.code turbo process.exitCode

theorem heeds_exit (process : Process α) (request : Request) :
    Heeds turbo (Process.exit turbo request.terminator process) request := by
  cases request <;> rfl

theorem heeds_enter (call : Call α) (below : List (Terminator × Call α)) (process : Process α)
    (request : Request) :
    Heeds turbo (Process.enter request.terminator below call process) request := rfl

theorem heeds_tpRunExitproc {back : Process α → Process α} {request : Request}
    (heeds_back : ∀ process, Heeds turbo (back process) request)
    (below : List (Terminator × Call α)) (process : Process α) :
    Heeds turbo (Process.tpRunExitproc request.terminator below back process) request := by
  rw [Process.tpRunExitproc]
  split
  · exact heeds_enter _ _ _ request
  · exact heeds_back process

theorem heeds_finalsRun (request : Request) (below : List (Terminator × Call α))
    (process : Process α) :
    Heeds turbo (Process.finalsRun turbo request.terminator below process) request := by
  rw [Process.finalsRun]
  induction process.moduleFinalisers generalizing process with
  | nil => exact heeds_exit _ request
  | cons finaliser finalisers induction =>
      cases finaliser with
      | tpRunExitproc => exact heeds_tpRunExitproc induction below _
      | routine fn => exact heeds_enter _ _ _ request

theorem heeds_comeBack {process : Process α} {request : Request}
    (heeds : Heeds turbo process request) : Heeds turbo (process.comeBack turbo) request := by
  rw [Process.comeBack]
  cases status : process.status with
  | main =>
      rw [Heeds, status] at heeds
      subst heeds
      exact heeds_finalsRun .mainEnd _ _
  | running terminator call below =>
      rw [Heeds, status] at heeds
      subst heeds
      cases call with
      | finaliser fn => exact heeds_finalsRun request _ _
      | exitProc fn => exact heeds_tpRunExitproc (heeds_finalsRun request below) _ _
  | exited code => exact heeds

/-- What does not end a program leaves it on its way. -/
theorem Heeds.of_same_status {before after : Process α} {request : Request}
    (heeds : Heeds turbo before request) (live : before.hasExited = false)
    (same : after.status = before.status) : Heeds turbo after request := by
  rw [Heeds, same]
  rw [Heeds] at heeds
  cases status : before.status with
  | main => rwa [status] at heeds
  | running terminator call below => rwa [status] at heeds
  | exited code => simp [Process.hasExited, status] at live

theorem status_moduleFinalPush (fn : α) (process : Process α) :
    (process.moduleFinalPush fn).status = process.status := by
  rw [Process.moduleFinalPush]
  split
  · rfl
  · rfl
  · rfl

theorem heeds_step {process : Process α} {request : Request} (heeds : Heeds turbo process request)
    (live : process.hasExited = false) (event : Event α) :
    Heeds turbo (process.step turbo event) (event.request request) := by
  rw [Process.step, if_neg (by simp [live])]
  cases event with
  | moduleFinalPush fn => exact heeds.of_same_status live (status_moduleFinalPush fn process)
  | assignExitProc value =>
      refine heeds.of_same_status live ?_
      rw [Process.act]
      split <;> rfl
  | assignExitCode value =>
      refine heeds.of_same_status live ?_
      rw [Process.act]
      split <;> rfl
  | «return» => exact heeds_comeBack heeds
  | halt status addr => exact heeds_finalsRun (.halt status addr) _ _
  | runerror code addr => exact heeds_finalsRun (.runerror code addr) _ _

theorem hasExited_step {process : Process α} (exited : process.hasExited = true)
    (event : Event α) : (process.step turbo event).hasExited = true := by
  rwa [Process.step, if_pos exited]

/-- A program that has exited stays so. -/
theorem hasExited_run (turbo : Bool) {process : Process α} (exited : process.hasExited = true)
    (events : List (Event α)) :
    (Runs.run (Process.step turbo) process events).hasExited = true :=
  Runs.ended_run (fun process : Process α => process.hasExited = true)
    (fun _ event exited => hasExited_step exited event) exited

theorem heeds_run {process : Process α} {request : Request} (heeds : Heeds turbo process request)
    {before : List (Event α)} (last : Event α)
    (live : (Runs.run (Process.step turbo) process before).hasExited = false) :
    Heeds turbo (Runs.run (Process.step turbo) process (before ++ [last]))
      ((before ++ [last]).foldl Event.request request) := by
  induction before generalizing process request with
  | nil => exact heeds_step heeds live last
  | cons event before induction =>
      have running : process.hasExited = false := by
        by_contra exited
        have ended := hasExited_run turbo (by simpa using exited) (event :: before)
        rw [ended] at live
        cases live
      exact induction (heeds_step heeds running event) live

/-- A program exits with what was asked for last. -/
theorem status_of_endsWith {events : List (Event α)} (ends : EndsWith turbo events) :
    (after turbo events).status =
      .exited ((lastRequest events).code turbo (after turbo events).exitCode) := by
  obtain ⟨before, last, rfl, live, exited⟩ := ends
  have start : Heeds turbo (Process.start turbo : Process α) .mainEnd := rfl
  have heeds : Heeds turbo (after turbo (before ++ [last])) (lastRequest (before ++ [last])) :=
    heeds_run start last live
  rw [Heeds] at heeds
  rw [Process.hasExited] at exited
  cases status : (after turbo (before ++ [last])).status with
  | main => simp [status] at exited
  | running terminator call below => simp [status] at exited
  | exited code =>
      rw [status] at heeds
      rw [heeds]

/-! ### Exactly when it shuts down as it should -/

theorem filled_of_not_leavesEmpty {process : Process α} {event : Event α}
    (fails : ¬LeavesEmpty process event) :
    event.interrupts = true ∧
      ∃ terminator fn below next, process.status = .running terminator (.exitProc fn) below ∧
        process.exitProc = some next := by
  rw [LeavesEmpty, Classical.not_imp] at fails
  obtain ⟨interrupts, filled⟩ := fails
  refine ⟨interrupts, ?_⟩
  cases status : process.status with
  | main =>
      rw [status] at filled
      exact absurd trivial filled
  | running terminator call below =>
      rw [status] at filled
      cases call with
      | finaliser fn => exact absurd trivial filled
      | exitProc fn =>
          obtain ⟨next, held⟩ := Option.ne_none_iff_exists'.mp filled
          exact ⟨terminator, fn, below, next, rfl, held⟩
  | exited code =>
      rw [status] at filled
      exact absurd trivial filled

/-- With no finaliser left, a halt or an error ends the program at once. -/
theorem step_of_interrupts {process : Process α} {event : Event α}
    (interrupts : event.interrupts = true) (live : process.hasExited = false)
    (nothing : process.moduleFinalisers = []) :
    (process.step turbo event).hasExited = true ∧ (process.step turbo event).ran = process.ran := by
  rw [Process.step, if_neg (by simp [live])]
  cases event with
  | moduleFinalPush fn => cases interrupts
  | assignExitProc value => cases interrupts
  | assignExitCode value => cases interrupts
  | «return» => cases interrupts
  | halt status addr => simp [Process.act, Process.halt, Process.finalsRun, nothing,
      Process.moduleFinalsRun, Process.exit, Process.hasExited]
  | runerror code addr => simp [Process.act, Process.tpRunerror, Process.finalsRun, nothing,
      Process.moduleFinalsRun, Process.exit, Process.hasExited]

theorem seen_of_interrupts {event : Event α} (interrupts : event.interrupts = true) :
    event.seen turbo = some .goOn := by
  cases event with
  | moduleFinalPush fn => cases interrupts
  | assignExitProc value => cases interrupts
  | assignExitCode value => cases interrupts
  | «return» => cases interrupts
  | halt status addr => rfl
  | runerror code addr => rfl

/-- A procedure that halts or fails with the next one in `ExitProc` keeps it from being called. -/
theorem abandoned {process : Process α} {sequence : Sequence α} {event : Event α}
    (follows : Follows turbo process sequence) (fails : ¬LeavesEmpty process event) :
    (process.step turbo event).hasExited = true ∧ (process.step turbo event).ran = process.ran ∧
      ∃ next, (follow sequence (event.seen turbo)).ran = sequence.ran ++ [.handler next] := by
  obtain ⟨interrupts, terminator, fn, below, next, status, held⟩ := filled_of_not_leavesEmpty fails
  have stage := follows.stage
  rw [status] at stage
  obtain ⟨begun, live, called, spent, nothing⟩ := stage
  have running : process.hasExited = false := follows.over_eq.symm.trans live
  obtain ⟨exited, same⟩ := step_of_interrupts interrupts running nothing
  refine ⟨exited, same, next, ?_⟩
  have inForce : sequence.inForce = some next := follows.exitProc.symm.trans held
  rw [seen_of_interrupts interrupts]
  simp [follow, Sequence.step, Sequence.next, live, spent, inForce]

theorem EndsWith.exited {events : List (Event α)} (ends : EndsWith turbo events) :
    (after turbo events).hasExited = true := by
  obtain ⟨before, last, split, live, exited⟩ := ends
  exact exited

/-- An event that ends a program is the last one. -/
theorem EndsWith.later_eq_nil {before later : List (Event α)} {event : Event α}
    (ends : EndsWith turbo (before ++ event :: later))
    (exited : ((after turbo before).step turbo event).hasExited = true) : later = [] := by
  obtain ⟨others, last, split, live, _⟩ := ends
  rcases List.eq_nil_or_concat later with rfl | ⟨between, final, rfl⟩
  · rfl
  · have regrouped : (before ++ event :: between) ++ [final] = others ++ [last] := by
      simpa using split
    have same : others = before ++ event :: between := (List.append_inj_left' regrouped rfl).symm
    have ended := hasExited_run turbo exited between
    rw [same, after, Runs.run_append, Runs.run_cons] at live
    exact absurd (live.symm.trans ended) (by simp)

/-- Under the condition a program shuts down as it should. -/
theorem lawful_of_along {events : List (Event α)} (ends : EndsWith turbo events)
    (along : Runs.Along (Process.step turbo) LeavesEmpty (Process.start turbo) events) :
    Lawful turbo events := by
  have follows : Follows turbo (after turbo events) _ := run_follows follows_start along
  constructor
  · rw [finalisersRun, follows.ran, registered]
    exact Sequence.hooks_of_over (seen turbo events) (follows.over_eq.trans ends.exited)
  · rw [exitProcsRun, follows.ran, reached]
  · exact status_of_endsWith ends

/-- A program shuts down as it should if and only if no procedure called from `ExitProc` halts or
fails with another one in `ExitProc`. -/
theorem lawful_iff_leavesEmpty {events : List (Event α)} (ends : EndsWith turbo events) :
    Lawful turbo events ↔
      Runs.Along (Process.step turbo) LeavesEmpty (Process.start turbo) events := by
  constructor
  · intro lawful
    by_contra fails
    obtain ⟨before, event, later, rfl, along, first⟩ := Runs.exists_first_of_not_along fails
    have follows : Follows turbo (after turbo before) _ := run_follows follows_start along
    obtain ⟨exited, same, next, more⟩ := abandoned follows first
    -- the program has ended here, with one call less than it should have made
    obtain rfl := ends.later_eq_nil exited
    have called : exitProcsRun turbo (before ++ [event]) =
        Shutdown.handlers (Runs.run Sequence.step Sequence.start (seen turbo before)).ran := by
      rw [exitProcsRun, after, Runs.run_append, Runs.run_cons, Runs.run_nil, ← follows.ran]
      exact congrArg (fun ran => Shutdown.handlers (ran.map Call.seen)) same
    have due : reached turbo (before ++ [event]) =
        Shutdown.handlers (Runs.run Sequence.step Sequence.start (seen turbo before)).ran ++
          [next] := by
      rw [reached, run_seen_concat, more, Shutdown.handlers_append, Shutdown.handlers_handler]
    have lost := called.symm.trans (lawful.exitProcs.trans due)
    exact absurd (congrArg List.length lost) (by simp)
  · exact lawful_of_along ends

/-- A procedure that fills `ExitProc` and returns, and another one that halts. -/
def chained : List (Event Nat) :=
  [.assignExitProc (some 1), .return, .assignExitProc (some 2), .return, .halt 3 0]

theorem chained_lawful : Lawful true chained := by
  refine (lawful_iff_leavesEmpty ⟨chained.dropLast, .halt 3 0, rfl, rfl, rfl⟩).mpr ?_
  refine ⟨?_, ?_, ?_, ?_, ?_, trivial⟩
  · exact fun interrupts => by cases interrupts
  · exact fun interrupts => by cases interrupts
  · exact fun interrupts => by cases interrupts
  · exact fun interrupts => by cases interrupts
  · exact fun _ => rfl

/-- A procedure that fills `ExitProc` and halts itself. -/
def chainedByHalt : List (Event Nat) :=
  [.assignExitProc (some 1), .return, .assignExitProc (some 2), .halt 3 0]

/-- The second procedure is never called. -/
theorem chainedByHalt_not_lawful :
    EndsWith true chainedByHalt ∧ ¬Lawful true chainedByHalt := by
  refine ⟨⟨chainedByHalt.dropLast, .halt 3 0, rfl, rfl, rfl⟩, fun lawful => ?_⟩
  have lost : exitProcsRun true chainedByHalt = reached true chainedByHalt := lawful.exitProcs
  exact absurd lost (by decide)

end Termination

end Runtime

end Plang
