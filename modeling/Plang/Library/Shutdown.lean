import Plang.Library.Runs

/-!
# Shutting down

What is registered while a program runs is called when it ends, the latest first.  Behind these
calls comes a slot: whatever a program leaves in it is taken out and called, until it is found
empty.  A called routine may fill the slot again, and it makes no difference whether it returns or
asks for the end once more.
-/

namespace Shutdown

variable {α : Type*}

/-- A call made while shutting down. -/
inductive Call (α : Type*) where
  | hook (routine : α)
  | handler (routine : α)
  deriving DecidableEq, Repr

/-- The events of the sequence; `goOn` gives control to it, for the first time or again. -/
inductive Event (α : Type*) where
  | register (routine : α)
  | install (routine : Option α)
  | goOn

/-- How far a program has come. -/
structure Sequence (α : Type*) where
  begun : Bool
  /-- The hooks still to be called, the latest first. -/
  pending : List α
  inForce : Option α
  ran : List (Call α)
  finished : Bool

namespace Sequence

/-- The sequence with nothing registered. -/
def start : Sequence α := ⟨false, [], none, [], false⟩

/-- The next call. -/
def next (sequence : Sequence α) : Sequence α :=
  match sequence.pending with
  | hook :: pending => { sequence with pending, ran := sequence.ran ++ [.hook hook] }
  | [] =>
      match sequence.inForce with
      | some handler =>
          { sequence with inForce := none, ran := sequence.ran ++ [.handler handler] }
      | none => { sequence with finished := true }

/-- Hooks are registered before the end has begun. -/
def step (sequence : Sequence α) : Event α → Sequence α
  | .register hook =>
      if sequence.begun then sequence else { sequence with pending := hook :: sequence.pending }
  | .install handler => if sequence.finished then sequence else { sequence with inForce := handler }
  | .goOn => if sequence.finished then sequence else { sequence with begun := true }.next

end Sequence

namespace Call

def hook? : Call α → Option α
  | .hook routine => some routine
  | .handler _ => none

def handler? : Call α → Option α
  | .hook _ => none
  | .handler routine => some routine

end Call

/-- The hooks among some calls. -/
def hooks (calls : List (Call α)) : List α := calls.filterMap Call.hook?

/-- The handlers among some calls. -/
def handlers (calls : List (Call α)) : List α := calls.filterMap Call.handler?

/-- The hooks registered before the end begins. -/
def registered : List (Event α) → List α
  | [] => []
  | .register hook :: events => hook :: registered events
  | .install _ :: events => registered events
  | .goOn :: _ => []

@[simp] theorem hooks_append (before after : List (Call α)) :
    hooks (before ++ after) = hooks before ++ hooks after := List.filterMap_append

@[simp] theorem handlers_append (before after : List (Call α)) :
    handlers (before ++ after) = handlers before ++ handlers after := List.filterMap_append

@[simp] theorem hooks_hook (routine : α) : hooks [.hook routine] = [routine] := rfl

@[simp] theorem hooks_handler (routine : α) : hooks [.handler routine] = [] := rfl

@[simp] theorem handlers_hook (routine : α) : handlers [.hook routine] = [] := rfl

@[simp] theorem handlers_handler (routine : α) : handlers [.handler routine] = [routine] := rfl

namespace Sequence

variable {sequence : Sequence α}

/-- The hooks called, and behind them those still to be called. -/
def allHooks (sequence : Sequence α) : List α := hooks sequence.ran ++ sequence.pending

@[simp] theorem begun_next (sequence : Sequence α) : sequence.next.begun = sequence.begun := by
  rw [next]
  split
  · rfl
  · split <;> rfl

@[simp] theorem allHooks_next (sequence : Sequence α) :
    sequence.next.allHooks = sequence.allHooks := by
  rw [next]
  split
  · rename_i pending
    simp [allHooks, pending]
  · split <;> simp [allHooks]

/-- Once the end has begun, no hook is added, and none is lost. -/
theorem allHooks_run (begun : sequence.begun = true) (events : List (Event α)) :
    (Runs.run step sequence events).allHooks = sequence.allHooks := by
  induction events generalizing sequence with
  | nil => rfl
  | cons event events induction =>
      rw [Runs.run_cons]
      cases event with
      | register hook =>
          rw [step, if_pos begun]
          exact induction begun
      | install handler =>
          rw [step]
          split
          · exact induction begun
          · exact induction begun
      | goOn =>
          rw [step]
          split
          · exact induction begun
          · rw [induction (begun_next _), allHooks_next]
            rfl

/-- The end has not begun. -/
structure Idle (sequence : Sequence α) : Prop where
  begun : sequence.begun = false
  ran : sequence.ran = []
  finished : sequence.finished = false

theorem idle_start : (start : Sequence α).Idle := ⟨rfl, rfl, rfl⟩

/-- The hooks called and those still to be called are those registered, the latest first. -/
theorem allHooks_run_of_idle (idle : sequence.Idle) (events : List (Event α)) :
    (Runs.run step sequence events).allHooks = (registered events).reverse ++ sequence.pending := by
  induction events generalizing sequence with
  | nil => simp [allHooks, registered, idle.ran, hooks]
  | cons event events induction =>
      rw [Runs.run_cons]
      cases event with
      | register hook =>
          have still : (step sequence (.register hook)).Idle := by
            rw [step, if_neg (by simp [idle.begun])]
            exact ⟨idle.begun, idle.ran, idle.finished⟩
          rw [induction still, step, if_neg (by simp [idle.begun]), registered]
          simp
      | install handler =>
          have still : (step sequence (.install handler)).Idle := by
            rw [step, if_neg (by simp [idle.finished])]
            exact ⟨idle.begun, idle.ran, idle.finished⟩
          rw [induction still, step, if_neg (by simp [idle.finished]), registered]
      | goOn =>
          rw [step, if_neg (by simp [idle.finished]), allHooks_run (begun_next _), allHooks_next]
          simp [allHooks, registered, idle.ran, hooks]

/-- When a sequence is over, no hook is pending and nothing is in the slot. -/
structure Spent (sequence : Sequence α) : Prop where
  begun : sequence.begun = true
  pending : sequence.pending = []
  inForce : sequence.inForce = none

theorem spent_next (begun : sequence.begun = true) (finished : sequence.next.finished = true)
    (running : sequence.finished = false) : sequence.next.Spent := by
  revert finished
  rw [next]
  split
  · intro finished
    exact absurd finished (by simp [running])
  · rename_i pending
    split
    · intro finished
      exact absurd finished (by simp [running])
    · rename_i inForce
      intro _
      exact ⟨begun, pending, inForce⟩

theorem spent_step (spent : sequence.finished = true → sequence.Spent) (event : Event α)
    (finished : (sequence.step event).finished = true) : (sequence.step event).Spent := by
  cases event with
  | register hook =>
      revert finished
      rw [step]
      split
      · exact spent
      · rename_i idle
        intro finished
        exact absurd (spent finished).begun idle
  | install handler =>
      revert finished
      rw [step]
      split
      · exact spent
      · rename_i running
        intro finished
        exact absurd finished running
  | goOn =>
      revert finished
      rw [step]
      split
      · exact spent
      · rename_i running
        intro finished
        exact spent_next rfl finished (by simpa using running)

theorem spent_run (spent : sequence.finished = true → sequence.Spent) (events : List (Event α))
    (finished : (Runs.run step sequence events).finished = true) :
    (Runs.run step sequence events).Spent := by
  induction events generalizing sequence with
  | nil => exact spent finished
  | cons event events induction => exact induction (spent_step spent event) finished

/-- Every hook is called exactly once, in the reverse of the order of registration. -/
theorem hooks_of_over (events : List (Event α))
    (finished : (Runs.run step start events).finished = true) :
    hooks (Runs.run step start events).ran = (registered events).reverse := by
  have all := allHooks_run_of_idle idle_start events
  have spent := spent_run (fun finished => absurd finished (by simp [start])) events finished
  rw [allHooks, spent.pending, List.append_nil] at all
  rw [all]
  exact List.append_nil _

end Sequence

end Shutdown
