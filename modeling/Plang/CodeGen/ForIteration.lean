import Mathlib.Tactic.Ring
import Plang.CodeGen.ForLoop

/-!
# What for-statements iterate over

A for-statement goes through the values from its first bound on to its second one, unless its
comparison is unsigned although the control variable is signed: then it does so if and only if both
bounds have the same sign.
-/

namespace Plang.CodeGen

open Plang.Sema MachineInt

namespace ForStmt

variable {turbo : Bool} {σ : Type*} {loop : ForStmt turbo σ}

/-- An integer of the control variable. -/
abbrev Holds (loop : ForStmt turbo σ) (x : Int) : Prop :=
  Fits (loop.varType.llvmWidth turbo) (loop.varType.isSigned turbo) x

/-- The bits of an integer of the control variable. -/
abbrev bits (loop : ForStmt turbo σ) (x : Int) : loop.Bits :=
  BitVec.ofInt (loop.varType.llvmWidth turbo) x

/-- Two integers are compared as their bits are read. -/
def Alike (loop : ForStmt turbo σ) (x y : Int) : Prop :=
  loop.varType.isSigned turbo = false ∨ loop.uns = false ∨ (x < 0 ↔ y < 0)

/-- The condition under which a for-statement iterates as it should. -/
def ReadAlike (loop : ForStmt turbo σ) (memory : σ) : Prop :=
  loop.varType.isSigned turbo = false ∨
    (loop.start.type.isSigned turbo = true ∧ loop.limit.type.isSigned turbo = true) ∨
    (loop.startValue memory < 0 ↔ loop.limitValue memory < 0)

theorem value_bits {x : Int} (holds : loop.Holds x) : loop.value (loop.bits x) = x :=
  denote_ofInt loop.stored holds

theorem bits_inj {x y : Int} (x_holds : loop.Holds x) (y_holds : loop.Holds y) :
    loop.bits x = loop.bits y ↔ x = y :=
  ofInt_inj loop.stored x_holds y_holds

theorem next_bits (x : Int) : loop.next (loop.bits x) = loop.bits (x + loop.direction) := by
  rw [next, direction]
  split
  · rw [bits, bits, BitVec.ofInt_add, BitVec.ofInt_neg, BitVec.sub_eq_add_neg]
    rfl
  · rw [bits, bits, BitVec.ofInt_add]
    rfl

theorem startBits_eq (memory : σ) : loop.startBits memory = loop.bits (loop.startValue memory) :=
  resize_eq_ofInt _ _ _

theorem limitBits_eq (memory : σ) : loop.limitBits memory = loop.bits (loop.limitValue memory) :=
  resize_eq_ofInt _ _ _

/-- The comparison of the bits, against that of the integers. -/
theorem le_bits {x y : Int} (x_holds : loop.Holds x) (y_holds : loop.Holds y) :
    (if loop.uns then (loop.bits x).ule (loop.bits y) else (loop.bits x).sle (loop.bits y)) = true ↔
      (loop.Alike x y ↔ x ≤ y) := by
  rw [Alike]
  cases signed : loop.varType.isSigned turbo with
  | false =>
      have uns : loop.uns = true := by simp [ForStmt.uns, signed]
      rw [Holds, signed] at x_holds y_holds
      rw [if_pos uns, ule_ofInt loop.stored x_holds y_holds]
      simp
  | true =>
      rw [Holds, signed] at x_holds y_holds
      cases uns : loop.uns with
      | false =>
          rw [if_neg (by simp), sle_ofInt loop.stored x_holds y_holds]
          simp
      | true =>
          rw [if_pos rfl, ule_ofInt_of_signed loop.stored x_holds y_holds]
          by_cases same : x < 0 ↔ y < 0 <;> simp [same]

theorem alike_comm {x y : Int} : loop.Alike x y ↔ loop.Alike y x := by
  rw [Alike, Alike, iff_comm (a := x < 0)]

/-- The body is entered where it should be, for integers compared as their bits are read, and where
it should not be for others. -/
theorem cmp_bits {x y : Int} (x_holds : loop.Holds x) (y_holds : loop.Holds y) :
    loop.cmp (loop.bits x) (loop.bits y) = true ↔
      (loop.Alike x y ↔ 0 ≤ loop.direction * (y - x)) := by
  rw [cmp, direction]
  split
  · rw [le_bits y_holds x_holds, alike_comm]
    have order : y ≤ x ↔ 0 ≤ -1 * (y - x) := by omega
    rw [order]
  · rw [le_bits x_holds y_holds]
    have order : x ≤ y ↔ 0 ≤ 1 * (y - x) := by omega
    rw [order]

theorem alike_iff_readAlike (memory : σ) :
    loop.Alike (loop.startValue memory) (loop.limitValue memory) ↔ loop.ReadAlike memory := by
  rw [Alike, ReadAlike, uns]
  cases loop.varType.isSigned turbo <;> cases loop.start.type.isSigned turbo <;>
    cases loop.limit.type.isSigned turbo <;> simp

/-! ### Blocks -/

variable {limit : loop.Bits} {state : LoopState σ}

theorem step_cond (block : state.block = .cond) :
    loop.step limit state =
      { state with
        block := if loop.cmp (loop.control.load state.memory) limit then .body else .done } := by
  simp only [step, block]

theorem step_body (block : state.block = .body) :
    loop.step limit state =
      { block := .inc
        memory := loop.body state.memory
        log := state.log ++ [.enter (loop.value (loop.control.load state.memory))] } := by
  simp only [step, block]

theorem step_inc (block : state.block = .inc) :
    loop.step limit state =
      { state with
        block := if loop.control.load state.memory = limit then .done else .step } := by
  simp only [step, block]

theorem step_step (block : state.block = .step) :
    loop.step limit state =
      { block := .cond
        memory := loop.control.store (loop.next (loop.control.load state.memory)) state.memory
        log := state.log ++ [.store (loop.value (loop.next (loop.control.load state.memory)))] } := by
  simp only [step, block]

theorem step_done (block : state.block = .done) : loop.step limit state = state := by
  simp only [step, block]

theorem iterate_done (block : state.block = .done) (steps : Nat) :
    (loop.step limit)^[steps] state = state := by
  induction steps with
  | zero => rfl
  | succ steps induction => rw [Function.iterate_succ_apply, step_done block, induction]

/-- A step takes back no event. -/
theorem length_log_step (limit : loop.Bits) (state : LoopState σ) :
    state.log.length ≤ (loop.step limit state).log.length := by
  cases block : state.block with
  | cond => rw [step_cond block]
  | body => simp [step_body block]
  | inc => rw [step_inc block]
  | step => simp [step_step block]
  | done => rw [step_done block]

theorem length_log_iterate (limit : loop.Bits) (state : LoopState σ) (steps : Nat) :
    state.log.length ≤ ((loop.step limit)^[steps] state).log.length := by
  induction steps generalizing state with
  | zero => exact le_refl _
  | succ steps induction =>
      rw [Function.iterate_succ_apply]
      exact (length_log_step limit state).trans (induction _)

/-! ### Rounds -/

/-- A round at the limit is the last one. -/
theorem last_round {x : Int} (x_holds : loop.Holds x) (block : state.block = .body)
    (loaded : loop.control.load state.memory = loop.bits x) :
    (loop.step (loop.bits x))^[2] state =
      { block := .done, memory := loop.body state.memory, log := state.log ++ [.enter x] } := by
  rw [Function.iterate_succ_apply, step_body block, Function.iterate_one, step_inc rfl, loaded,
    value_bits x_holds]
  simp only [loop.body_keeps, loaded, if_true]

theorem direction_cases (loop : ForStmt turbo σ) : loop.direction = 1 ∨ loop.direction = -1 := by
  rw [direction]
  split <;> simp

/-- What is between two values of the control variable is one, and is compared as they are. -/
theorem holds_between {x y z : Int} (x_holds : loop.Holds x) (y_holds : loop.Holds y)
    (between : x ≤ z ∧ z ≤ y ∨ y ≤ z ∧ z ≤ x) : loop.Holds z := by
  rw [Holds, Fits] at *
  omega

theorem alike_between {x y z : Int} (alike : loop.Alike x y)
    (between : x ≤ z ∧ z ≤ y ∨ y ≤ z ∧ z ≤ x) : loop.Alike z y := by
  rcases alike with unsigned | same | sign
  · exact .inl unsigned
  · exact .inr (.inl same)
  · exact .inr (.inr (by omega))

/-- Where values are compared as they should be, one that is not past the limit lets the body be
entered. -/
theorem step_cond_of_alike {x y : Int} (x_holds : loop.Holds x) (y_holds : loop.Holds y)
    (alike : loop.Alike x y) (ahead : 0 ≤ loop.direction * (y - x)) (block : state.block = .cond)
    (loaded : loop.control.load state.memory = loop.bits x) :
    loop.step (loop.bits y) state = { state with block := .body } := by
  have entered : loop.cmp (loop.bits x) (loop.bits y) = true :=
    (cmp_bits x_holds y_holds).mpr (iff_of_true alike ahead)
  rw [step_cond block, loaded, if_pos entered]

/-- Any other round ends with the next value stored, and the body entered again. -/
theorem round {x y : Int} (x_holds : loop.Holds x) (y_holds : loop.Holds y) (other : x ≠ y)
    (next_holds : loop.Holds (x + loop.direction)) (next_alike : loop.Alike (x + loop.direction) y)
    (ahead : 0 ≤ loop.direction * (y - (x + loop.direction))) (block : state.block = .body)
    (loaded : loop.control.load state.memory = loop.bits x) :
    (loop.step (loop.bits y))^[4] state =
      { block := .body
        memory := loop.control.store (loop.bits (x + loop.direction)) (loop.body state.memory)
        log := state.log ++ [.enter x] ++ [.store (x + loop.direction)] } := by
  have apart : loop.bits x ≠ loop.bits y := fun same => other ((bits_inj x_holds y_holds).mp same)
  have stored : (loop.step (loop.bits y))^[3] state =
      { block := .cond
        memory := loop.control.store (loop.bits (x + loop.direction)) (loop.body state.memory)
        log := state.log ++ [.enter x] ++ [.store (x + loop.direction)] } := by
    rw [Function.iterate_succ_apply, step_body block, Function.iterate_succ_apply, step_inc rfl,
      Function.iterate_one, loaded, value_bits x_holds, step_step]
    · simp only [loop.body_keeps, loaded, next_bits, value_bits next_holds]
    · simp only [loop.body_keeps, loaded, if_neg apart]
  rw [Function.iterate_succ_apply', stored,
    step_cond_of_alike next_holds y_holds next_alike ahead rfl (loop.control.load_store _ _)]

/-- With this many values to come, and all of them compared as they should be, the body is entered
with each in turn, and the statement is done. -/
theorem rounds (remaining : Nat) {x y : Int} (last : y = x + loop.direction * remaining)
    (x_holds : loop.Holds x) (y_holds : loop.Holds y) (alike : loop.Alike x y)
    (block : state.block = .body) (loaded : loop.control.load state.memory = loop.bits x) :
    ∃ steps, ((loop.step (loop.bits y))^[steps] state).block = .done ∧
      ((loop.step (loop.bits y))^[steps] state).log =
        state.log ++ .enter x :: iterations (loop.sequence (x + loop.direction) remaining) := by
  induction remaining generalizing x state with
  | zero =>
      obtain rfl : y = x := by simpa using last
      refine ⟨2, ?_, ?_⟩ <;> rw [last_round y_holds block loaded]
      rfl
  | succ remaining induction =>
      have between : x ≤ x + loop.direction ∧ x + loop.direction ≤ y ∨
          y ≤ x + loop.direction ∧ x + loop.direction ≤ x := by
        rcases direction_cases loop with up | down
        · rw [up] at last ⊢
          omega
        · rw [down] at last ⊢
          omega
      have other : x ≠ y := by
        rcases direction_cases loop with up | down
        · rw [up] at last
          omega
        · rw [down] at last
          omega
      have next_holds := holds_between x_holds y_holds between
      have next_alike := alike_between alike between
      have next_last : y = x + loop.direction + loop.direction * remaining := by
        rw [last]
        push_cast
        ring
      have ahead : 0 ≤ loop.direction * (y - (x + loop.direction)) := by
        rcases direction_cases loop with up | down
        · rw [up] at last ⊢
          omega
        · rw [down] at last ⊢
          omega
      have first := round x_holds y_holds other next_holds next_alike ahead block loaded
      obtain ⟨steps, done, log⟩ := induction next_last next_holds next_alike
        (congrArg LoopState.block first)
        ((congrArg (loop.control.load ·.memory) first).trans (loop.control.load_store _ _))
      rw [← Function.iterate_add_apply] at done log
      refine ⟨steps + 4, done, ?_⟩
      rw [log, first]
      simp [sequence, iterations]

/-! ### Whole statements -/

theorem loaded_entry (memory : σ) :
    loop.control.load (loop.entry memory).memory = loop.bits (loop.startValue memory) :=
  (loop.control.load_store _ _).trans (startBits_eq memory)

theorem log_entry {memory : σ} (range : loop.InRange memory) :
    (loop.entry memory).log = [.evalFrom, .evalLimit, .store (loop.startValue memory)] := by
  rw [entry, startBits_eq, value_bits range.start]

theorem run_add (memory : σ) (first steps : Nat) :
    loop.run memory (steps + first) =
      (loop.step (loop.limitBits memory))^[steps] (loop.run memory first) :=
  Function.iterate_add_apply _ _ _ _

/-- The first block compares the bounds. -/
theorem run_one (loop : ForStmt turbo σ) (memory : σ) :
    loop.run memory 1 =
      { loop.entry memory with
        block := if loop.cmp (loop.bits (loop.startValue memory))
          (loop.bits (loop.limitValue memory)) then .body else .done } := by
  rw [run, Function.iterate_one, step_cond rfl, loaded_entry, limitBits_eq]

/-- Bounds that are compared as they should be are iterated over. -/
theorem iterates_of_alike {memory : σ} (range : loop.InRange memory)
    (alike : loop.Alike (loop.startValue memory) (loop.limitValue memory)) :
    loop.Iterates memory := by
  have entered := cmp_bits range.start range.limit
  by_cases ahead : 0 ≤ loop.direction * (loop.limitValue memory - loop.startValue memory)
  · obtain ⟨remaining, distance⟩ := Int.eq_ofNat_of_zero_le ahead
    have last : loop.limitValue memory =
        loop.startValue memory + loop.direction * remaining := by
      rw [← distance]
      rcases direction_cases loop with up | down
      · rw [up]
        ring
      · rw [down]
        ring
    have first : loop.run memory 1 = { loop.entry memory with block := .body } := by
      rw [run_one, if_pos (entered.mpr (iff_of_true alike ahead))]
    obtain ⟨steps, done, log⟩ := rounds remaining last range.start range.limit alike
      (congrArg LoopState.block first)
      ((congrArg (loop.control.load ·.memory) first).trans (loaded_entry memory))
    rw [first, ← limitBits_eq, ← first, ← run_add] at done log
    have count : loop.count (loop.startValue memory) (loop.limitValue memory) = remaining + 1 := by
      rw [ForStmt.count, distance]
      omega
    refine ⟨steps + 1, done, ?_⟩
    rw [log, first, count, log_entry range]
    rfl
  · refine ⟨1, ?_, ?_⟩
    · rw [run_one, if_neg fun enters => ahead ((entered.mp enters).mp alike)]
    · have count : loop.count (loop.startValue memory) (loop.limitValue memory) = 0 := by
        rw [ForStmt.count]
        omega
      rw [run_one, count]
      exact log_entry range

theorem length_iterations (values : List Int) : (iterations values).length = 2 * values.length := by
  induction values with
  | nil => rfl
  | cons value values induction =>
      rw [iterations, List.length_cons, List.length_cons, induction, List.length_cons]
      omega

theorem length_sequence (first : Int) (count : Nat) :
    (loop.sequence first count).length = count := by
  induction count generalizing first with
  | zero => rfl
  | succ count induction => rw [sequence, List.length_cons, induction]

/-- More is seen than the two bounds and the first store only when there are values. -/
theorem length_expected (first : Int) (values : List Int) :
    3 < (expected first values).length ↔ values ≠ [] := by
  cases values with
  | nil => simp [expected]
  | cons value values => simp [expected, length_iterations]

/-- There are values if and only if the second bound is not before the first one. -/
theorem count_pos (first last : Int) :
    0 < loop.count first last ↔ 0 ≤ loop.direction * (last - first) := by
  rw [count]
  omega

/-- Once the body was entered, more is seen than the two bounds and the first store. -/
theorem length_log_of_entered {memory : σ} (range : loop.InRange memory)
    (enters : loop.cmp (loop.bits (loop.startValue memory))
      (loop.bits (loop.limitValue memory)) = true) (steps : Nat) :
    3 < (loop.run memory (steps + 2)).log.length := by
  have first : loop.run memory 1 = { loop.entry memory with block := .body } := by
    rw [run_one, if_pos enters]
  have body : (loop.run memory 2).log.length = 4 := by
    rw [run_add memory 1 1, Function.iterate_one, first, step_body rfl, log_entry range]
    rfl
  rw [run_add]
  have grown := length_log_iterate (loop.limitBits memory) (loop.run memory 2) steps
  omega

/-- A statement that is done has entered its body if and only if its first comparison says so. -/
theorem length_log_of_done {memory : σ} (range : loop.InRange memory) {steps : Nat}
    (done : (loop.run memory steps).block = .done) :
    3 < (loop.run memory steps).log.length ↔
      loop.cmp (loop.bits (loop.startValue memory)) (loop.bits (loop.limitValue memory)) = true := by
  have first := run_one loop memory
  constructor
  · intro longer
    by_contra shut
    rw [if_neg shut] at first
    cases steps with
    | zero => exact absurd longer (by simp [run, log_entry range])
    | succ steps =>
        rw [run_add memory 1 steps, iterate_done (congrArg LoopState.block first), first,
          log_entry range] at longer
        exact absurd longer (by simp)
  · intro enters
    rw [if_pos enters] at first
    rcases steps with _ | _ | steps
    · cases done
    · rw [first] at done
      cases done
    · exact length_log_of_entered range enters steps

/-- Bounds that are not compared as they should be are not iterated over. -/
theorem not_iterates_of_not_alike {memory : σ} (range : loop.InRange memory)
    (unlike : ¬loop.Alike (loop.startValue memory) (loop.limitValue memory)) :
    ¬loop.Iterates memory := by
  rintro ⟨steps, done, log⟩
  have entered := cmp_bits range.start range.limit
  have longer := length_log_of_done range done
  rw [log, length_expected, ← List.length_pos_iff, length_sequence, count_pos, entered] at longer
  rw [iff_false_left unlike] at longer
  exact not_iff_self longer.symm

/-- A for-statement iterates over the values from its first bound on to its second one if and only
if its comparison reads their bits alike. -/
theorem iterates_iff_readAlike {memory : σ} (range : loop.InRange memory) :
    loop.Iterates memory ↔ loop.ReadAlike memory := by
  rw [← alike_iff_readAlike]
  constructor
  · intro iterates
    by_contra unlike
    exact not_iterates_of_not_alike range unlike iterates
  · exact iterates_of_alike range

/-- A variable that is the whole memory. -/
def whole (w : Nat) : Variable (BitVec w) w where
  load memory := memory
  store v _ := v
  load_store _ _ := rfl

/-- A bound that is an integer of a type. -/
def constant {σ : Type*} (width : Nat) (signed : Bool) (x : Int) : Bound σ where
  type := .integer width signed
  width := width
  eval memory := (BitVec.ofInt width x, memory)

/-- The last two values of a byte, in Turbo. -/
def lastBytes : ForStmt true (BitVec 8) where
  varType := .integer 8 false
  stored := by decide
  control := whole 8
  start := constant 16 true 254
  limit := constant 8 false 255
  downto := false
  body memory := memory
  body_keeps _ := rfl

/-- A statement whose limit is at the end of its type ends with it. -/
theorem lastBytes_iterates : lastBytes.Iterates 0 :=
  (iterates_iff_readAlike ⟨⟨by decide, by decide⟩, ⟨by decide, by decide⟩⟩).mpr (.inl rfl)

/-- From a negative integer to a byte, with a signed control variable. -/
def mixed : ForStmt true (BitVec 16) where
  varType := .integer 16 true
  stored := by decide
  control := whole 16
  start := constant 16 true (-1)
  limit := constant 8 false 3
  downto := false
  body memory := memory
  body_keeps _ := rfl

/-- An unsigned limit makes a negative first bound a large one, and the body is never entered. -/
theorem mixed_not_iterates : mixed.InRange 0 ∧ ¬mixed.Iterates 0 := by
  have range : mixed.InRange 0 := ⟨⟨by decide, by decide⟩, ⟨by decide, by decide⟩⟩
  refine ⟨range, not_iterates_of_not_alike range ?_⟩
  rw [alike_iff_readAlike]
  rintro (unsigned | ⟨_, signed⟩ | sign)
  · cases unsigned
  · cases signed
  · exact absurd (sign.mp (by decide)) (by decide)

end ForStmt

end Plang.CodeGen
