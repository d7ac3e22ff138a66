import Mathlib.Data.List.Basic

/-!
# Interleaved calls

Clients call one system in any order.  Where a call does for its client what it would do in a machine
of the client's own, and nothing to what belongs to the others, each client sees its own machine.
-/

namespace Interleaving

variable {ι ω α β σ τ : Type*}

/-- The answers to the calls, and the state behind them. -/
def run (step : ι → ω → σ → α × σ) : σ → List (ι × ω) → List (ι × α) × σ
  | state, [] => ([], state)
  | state, (client, call) :: calls =>
      let (answer, after) := step client call state
      let (answers, final) := run step after calls
      ((client, answer) :: answers, final)

/-- The answers to the calls of one client. -/
def runAlone (step : ω → τ → α × τ) : τ → List ω → List α
  | _, [] => []
  | state, call :: calls => (step call state).1 :: runAlone step (step call state).2 calls

section Own

variable [DecidableEq ι]

/-- The items of one client. -/
def own (client : ι) (tagged : List (ι × β)) : List β :=
  (tagged.filter fun entry => entry.1 = client).map Prod.snd

@[simp] theorem own_nil (client : ι) : own client ([] : List (ι × β)) = [] := rfl

@[simp] theorem own_cons_self (client : ι) (entry : β) (tagged : List (ι × β)) :
    own client ((client, entry) :: tagged) = entry :: own client tagged := by
  simp [own]

theorem own_cons_of_ne {client other : ι} (ne : other ≠ client) (entry : β)
    (tagged : List (ι × β)) : own client ((other, entry) :: tagged) = own client tagged := by
  simp [own, ne]

end Own

section Steps

variable {step : ι → ω → σ → α × σ} {Good : σ → Prop}

/-- A run keeps a property that each call keeps. -/
theorem run_keeps (keeps : ∀ client call state, Good state → Good (step client call state).2)
    (calls : List (ι × ω)) {state : σ} (good : Good state) : Good (run step state calls).2 := by
  induction calls generalizing state with
  | nil => exact good
  | cons entry calls induction => exact induction (keeps entry.1 entry.2 state good)

variable [DecidableEq ι] {alone : ω → τ → α × τ} {Follows : σ → τ → Prop} {fit : ω → Prop}

/-- A client whose calls follow its own machine sees that machine, whatever the others call. -/
theorem own_answers {client : ι}
    (keeps : ∀ other call state, Good state → Good (step other call state).2)
    (own_call : ∀ call state machine, fit call → Good state → Follows state machine →
      (step client call state).1 = (alone call machine).1 ∧
        Follows (step client call state).2 (alone call machine).2)
    (other_call : ∀ other call state machine, other ≠ client → Good state →
      Follows state machine → Follows (step other call state).2 machine)
    (calls : List (ι × ω)) (fits : ∀ call ∈ own client calls, fit call) {state : σ} {machine : τ}
    (good : Good state) (follows : Follows state machine) :
    own client (run step state calls).1 = runAlone alone machine (own client calls) := by
  induction calls generalizing state machine with
  | nil => rfl
  | cons entry calls induction =>
      obtain ⟨other, call⟩ := entry
      have still := keeps other call state good
      rw [run]
      by_cases mine : other = client
      · subst mine
        rw [own_cons_self] at fits
        obtain ⟨answer, after⟩ :=
          own_call call state machine (fits call List.mem_cons_self) good follows
        rw [own_cons_self, own_cons_self, runAlone, answer,
          induction (fun call member => fits call (List.mem_cons_of_mem _ member)) still after]
      · rw [own_cons_of_ne mine] at fits
        rw [own_cons_of_ne mine, own_cons_of_ne mine,
          induction fits still (other_call other call state machine mine good follows)]

end Steps

end Interleaving
