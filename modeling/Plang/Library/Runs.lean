import Mathlib.Data.List.Basic

/-!
# Runs of a machine that takes operations

A machine takes one operation after the other.  A condition that every operation meets in the state
it starts from carries an invariant through the run; where the condition is exact, the run meets it
if and only if the invariant holds in every state reached.
-/

namespace Runs

variable {σ ι : Type*}

/-- The state after a list of operations. -/
def run (step : σ → ι → σ) (state : σ) (ops : List ι) : σ := ops.foldl step state

variable {step : σ → ι → σ} {condition : σ → ι → Prop} {property : σ → Prop}

@[simp] theorem run_nil (state : σ) : run step state [] = state := rfl

@[simp] theorem run_cons (state : σ) (op : ι) (ops : List ι) :
    run step state (op :: ops) = run step (step state op) ops := rfl

theorem run_append (state : σ) (before after : List ι) :
    run step state (before ++ after) = run step (run step state before) after :=
  List.foldl_append

/-- Steps that may fail keep a property where they all succeed. -/
theorem foldlM_keeps {partialStep : σ → ι → Option σ}
    (keeps : ∀ state op next, partialStep state op = some next → property state → property next)
    {ops : List ι} {state last : σ} (succeeds : ops.foldlM partialStep state = some last)
    (first : property state) : property last := by
  induction ops generalizing state with
  | nil =>
      obtain rfl := Option.some.inj succeeds
      exact first
  | cons op ops induction =>
      rw [List.foldlM_cons] at succeeds
      obtain ⟨next, stepped, rest⟩ := Option.bind_eq_some_iff.mp succeeds
      exact induction rest (keeps state op next stepped first)

/-- Every operation meets the condition in the state it starts from. -/
def Along (step : σ → ι → σ) (condition : σ → ι → Prop) : σ → List ι → Prop
  | _, [] => True
  | state, op :: ops => condition state op ∧ Along step condition (step state op) ops

/-- Conditions that say the same of every operation are met along the same runs. -/
theorem along_congr {other : σ → ι → Prop} (same : ∀ state op, condition state op ↔ other state op)
    {state : σ} {ops : List ι} : Along step condition state ops ↔ Along step other state ops := by
  induction ops generalizing state with
  | nil => exact Iff.rfl
  | cons op ops induction => exact and_congr (same state op) induction

/-- Every state reached has the property, the first one included. -/
def Always (step : σ → ι → σ) (property : σ → Prop) (state : σ) (ops : List ι) : Prop :=
  ∀ before after, ops = before ++ after → property (run step state before)

theorem Always.head {state : σ} {ops : List ι} (always : Always step property state ops) :
    property state :=
  always [] ops rfl

theorem Always.last {state : σ} {ops : List ι} (always : Always step property state ops) :
    property (run step state ops) :=
  always ops [] (List.append_nil ops).symm

theorem always_cons_iff {state : σ} {op : ι} {ops : List ι} :
    Always step property state (op :: ops) ↔
      property state ∧ Always step property (step state op) ops := by
  constructor
  · intro always
    refine ⟨always.head, fun before after split => ?_⟩
    exact always (op :: before) after (by rw [split, List.cons_append])
  · rintro ⟨first, later⟩ before after split
    cases before with
    | nil => exact first
    | cons other before =>
        obtain ⟨rfl, rest⟩ := List.cons.inj split
        exact later before after rest

/-- An invariant that every operation under the condition preserves holds throughout. -/
theorem always_of_along
    (preserved : ∀ state op, property state → condition state op → property (step state op))
    {state : σ} {ops : List ι} (holds : property state) (along : Along step condition state ops) :
    Always step property state ops := by
  induction ops generalizing state with
  | nil =>
      intro before after split
      obtain ⟨rfl, rfl⟩ := List.append_eq_nil_iff.mp split.symm
      exact holds
  | cons op ops induction =>
      exact always_cons_iff.mpr ⟨holds, induction (preserved state op holds along.1) along.2⟩

/-- A condition that says exactly when an operation preserves the invariant. -/
theorem always_iff_along
    (exact_step : ∀ state op, property state → (property (step state op) ↔ condition state op))
    {state : σ} {ops : List ι} (holds : property state) :
    Always step property state ops ↔ Along step condition state ops := by
  constructor
  · intro always
    induction ops generalizing state with
    | nil => trivial
    | cons op ops induction =>
        have later := (always_cons_iff.mp always).2
        exact ⟨(exact_step state op holds).mp later.head, induction later.head later⟩
  · exact always_of_along (fun state op before => (exact_step state op before).mpr) holds

/-- A run that does not meet the condition has a first operation that does not. -/
theorem exists_first_of_not_along {state : σ} {ops : List ι}
    (fails : ¬Along step condition state ops) :
    ∃ before op after, ops = before ++ op :: after ∧ Along step condition state before ∧
      ¬condition (run step state before) op := by
  induction ops generalizing state with
  | nil => exact absurd trivial fails
  | cons op ops induction =>
      by_cases meets : condition state op
      · have later : ¬Along step condition (step state op) ops := fun along => fails ⟨meets, along⟩
        obtain ⟨before, other, after, split, along, first⟩ := induction later
        exact ⟨op :: before, other, after, by rw [split, List.cons_append], ⟨meets, along⟩, first⟩
      · exact ⟨[], op, ops, rfl, trivial, meets⟩

/-! ## Latches -/

section Latch

/-- The first code that an operation leaves behind, zero if none does. -/
def firstCode (step : σ → ι → σ) (code : σ → Int) : σ → List ι → Int
  | _, [] => 0
  | state, op :: ops =>
      if code (step state op) ≠ 0 then code (step state op)
      else firstCode step code (step state op) ops

variable {code : σ → Int} {ops : List ι} (ended : σ → Prop)

/-- A machine that has ended stays so. -/
theorem ended_run (ended_step : ∀ state op, ended state → ended (step state op)) {state : σ}
    (done : ended state) : ended (run step state ops) := by
  induction ops generalizing state with
  | nil => exact done
  | cons op ops induction => exact induction (ended_step state op done)

/-- A code that is there stays, as long as the machine runs. -/
theorem code_run_of_pending (ended_step : ∀ state op, ended state → ended (step state op))
    (latched : ∀ state, ∀ op ∈ ops, code state ≠ 0 →
      ended (step state op) ∨ code (step state op) = code state)
    {state : σ} (pending : code state ≠ 0) (running : ¬ended (run step state ops)) :
    code (run step state ops) = code state := by
  induction ops generalizing state with
  | nil => rfl
  | cons op ops induction =>
      rcases latched state op List.mem_cons_self pending with done | same
      · exact absurd (ended_run ended ended_step done) running
      · have later : ∀ state, ∀ other ∈ ops, code state ≠ 0 →
            ended (step state other) ∨ code (step state other) = code state :=
          fun state other member => latched state other (List.mem_cons_of_mem op member)
        rw [run_cons, induction later (by rwa [same]) running, same]

/-- A machine that keeps the code it has ends with the first one. -/
theorem code_run_eq_firstCode (ended_step : ∀ state op, ended state → ended (step state op))
    (latched : ∀ state, ∀ op ∈ ops, code state ≠ 0 →
      ended (step state op) ∨ code (step state op) = code state)
    {state : σ} (clear : code state = 0) (running : ¬ended (run step state ops)) :
    code (run step state ops) = firstCode step code state ops := by
  induction ops generalizing state with
  | nil => exact clear
  | cons op ops induction =>
      have later : ∀ state, ∀ other ∈ ops, code state ≠ 0 →
          ended (step state other) ∨ code (step state other) = code state :=
        fun state other member => latched state other (List.mem_cons_of_mem op member)
      by_cases quiet : code (step state op) = 0
      · rw [firstCode, if_neg (not_not.mpr quiet)]
        exact induction later quiet running
      · rw [firstCode, if_pos quiet]
        exact code_run_of_pending ended ended_step later quiet running

end Latch

end Runs
