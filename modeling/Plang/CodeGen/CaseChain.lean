import Mathlib.Data.Set.Card
import Plang.CodeGen.CaseLabels
import Plang.CodeGen.FoldAgreement

/-!
# Case statements

A case statement is lowered to a chain of tests, one for each arm, that compare the selector with
the labels in 64 signed bits.  The labels of an accepted statement have no value in common, so that
at most one test succeeds.
-/

namespace Plang.CodeGen

open Plang.Sema MachineInt

/-! ### The chain -/

namespace LabelExpr

variable {turbo : Bool}

/-- The bits of a label, brought to 64; nothing where an error is reported.  Only constants come
this far. -/
def emit (checks : Bool) : LabelExpr turbo → Option (BitVec 64)
  | .const e => (e.run checks).map fun bits => toI64 bits e.isSigned
  | .runtime _ => none
  | .erroneous => none

/-- The code computes the value that the checker has folded. -/
def Computed (checks : Bool) : LabelExpr turbo → Prop
  | .const e => ∀ v, e.constBound = some v → e.Computes checks v
  | .runtime _ => True
  | .erroneous => True

end LabelExpr

/-- The test for one label. -/
def CaseLabel.emit {turbo : Bool} (checks : Bool) (sel : BitVec 64) (lbl : CaseLabel turbo) :
    Option Bool :=
  match lbl.High with
  | some High =>
      (lbl.Low.emit checks).bind fun lo => (High.emit checks).map fun hi =>
        lo.sle sel && sel.sle hi
  | none => (lbl.Low.emit checks).map fun val => sel == val

/-- The outcome of a case statement. -/
inductive CaseOutcome (β : Type*) where
  | arm (index : Nat) (Body : β)
  /-- The `otherwise` part, with a statement in it or without. -/
  | otherwise (Else : Option β)
  /-- Turbo goes on behind the statement. -/
  | nothing
  | plang_err_no_case (sel : BitVec 64)
  /-- The computation of a label has reported an error. -/
  | failed
  deriving DecidableEq

section Chain

variable {turbo : Bool} {β : Type*} (checks : Bool) (sel : BitVec 64)

/-- The test of an arm: any of its labels, and each of them is computed. -/
def CaseArm.cond (arm : CaseArm turbo β) : Option Bool :=
  arm.Labels.foldl
    (fun cond lbl => cond.bind fun cond => (lbl.emit checks sel).map fun matched => cond || matched)
    (some false)

def emitArms (default : CaseOutcome β) : Nat → List (CaseArm turbo β) → CaseOutcome β
  | _, [] => default
  | index, arm :: arms =>
      match arm.cond checks sel with
      | none => .failed
      | some true => .arm index arm.Body
      | some false => emitArms default (index + 1) arms

/-- The outcome where no label matches. -/
def CaseStmt.default (s : CaseStmt turbo β) : CaseOutcome β :=
  if s.HasElse then .otherwise s.Else else if turbo then .nothing else .plang_err_no_case sel

def CaseStmt.emitCase (s : CaseStmt turbo β) : CaseOutcome β :=
  emitArms checks sel (s.default sel) 0 s.Arms

end Chain

/-! ### What an accepted label is compared with -/

section Comparing

variable {turbo checks : Bool} {β : Type*}

theorem LabelExpr.emit_eq {E : LabelExpr turbo} {v : Int} (folded : E.constBound = some v)
    (computed : E.Computed checks) : E.emit checks = some (BitVec.ofInt 64 v) := by
  cases E with
  | const e =>
      obtain ⟨bits, run_eq, denoted⟩ := computed v folded
      rw [emit, run_eq, Option.map_some, toI64, resize_eq_ofInt, denoted]
  | runtime type => cases folded
  | erroneous => cases folded

theorem LabelExpr.fits {E : LabelExpr turbo} {v : Int} (folded : E.constBound = some v) :
    Fits 64 true v := by
  cases E with
  | const e => exact ConstExpr.fits_of_constBound folded
  | runtime type => cases folded
  | erroneous => cases folded

/-- What is said of a label does not depend on those before it, but for what it repeats. -/
theorem errors_checkLabels {spell : Int → Text} {SelType : OrdinalType}
    {labels : List (CaseLabel turbo)} (accepted : (checkLabels spell SelType labels).errors = []) :
    ∀ Lbl ∈ labels, ∀ E ∈ Lbl.bounds, E.checkLabel SelType = [] ∧ E.mustBeConst = [] := by
  induction labels using List.reverseRecOn with
  | nil => exact fun Lbl written => (List.not_mem_nil written).elim
  | append_singleton labels Lbl induction =>
      rw [checkLabels, List.foldl_append, List.foldl_cons, List.foldl_nil, checkCaseLabel]
        at accepted
      have own : (checkLabels spell SelType labels).errors ++
          Lbl.bounds.flatMap (LabelExpr.checkLabel SelType) ++
          Lbl.bounds.flatMap LabelExpr.mustBeConst = [] := by
        cases noted : Lbl.interval? with
        | none =>
            rw [noted] at accepted
            exact accepted
        | some R =>
            rw [noted] at accepted
            exact (List.append_eq_nil_iff.mp accepted).1
      obtain ⟨first, constants⟩ := List.append_eq_nil_iff.mp own
      obtain ⟨before, types⟩ := List.append_eq_nil_iff.mp first
      intro other written E bound
      rcases List.mem_append.mp written with earlier | last
      · exact induction before other earlier E bound
      · obtain rfl := List.mem_singleton.mp last
        exact ⟨List.flatMap_eq_nil_iff.mp types E bound,
          List.flatMap_eq_nil_iff.mp constants E bound⟩

/-- A bound that was accepted has a value. -/
theorem LabelExpr.constBound_isSome {E : LabelExpr turbo} {SelType : OrdinalType}
    (typed : E.checkLabel SelType = []) (constant : E.mustBeConst = []) :
    ∃ v, E.constBound = some v := by
  have known : E.type?.isSome = true := by
    rw [checkLabel] at typed
    cases type : E.type? with
    | none => simp [type] at typed
    | some T => rfl
  rw [mustBeConst, known, Bool.and_true] at constant
  cases folded : E.constBound with
  | none => simp [folded] at constant
  | some v => exact ⟨v, rfl⟩

/-- Every bound of the label has a value, which the code computes. -/
structure CaseLabel.Sound (checks : Bool) (Lbl : CaseLabel turbo) : Prop where
  folded : ∀ E ∈ Lbl.bounds, ∃ v, E.constBound = some v
  computed : ∀ E ∈ Lbl.bounds, E.Computed checks

theorem CaseLabel.mem_values_of_range {Lbl : CaseLabel turbo} {High : LabelExpr turbo}
    (range : Lbl.High = some High) {lo hi y : Int} (low : Lbl.Low.constBound = some lo)
    (high : High.constBound = some hi) : y ∈ Lbl.values ↔ lo ≤ y ∧ y ≤ hi := by
  simp only [values, interval?, range, low, high, Option.bind_some, Set.mem_ofPred_eq]
  split
  · simp only [Option.mem_def, reduceCtorEq, false_and, exists_false, false_iff]
    omega
  · simp [LabelInterval.values]

theorem CaseLabel.mem_values_of_single {Lbl : CaseLabel turbo} (single : Lbl.High = none)
    {v y : Int} (low : Lbl.Low.constBound = some v) : y ∈ Lbl.values ↔ y = v := by
  simp only [values, interval?, single, low, Option.bind_some, Set.mem_ofPred_eq, lt_irrefl,
    if_false]
  simp [LabelInterval.values, le_antisymm_iff, and_comm]

/-- The test for a label is whether the selector is one of its values. -/
theorem CaseLabel.emit_eq {Lbl : CaseLabel turbo} (sound : Lbl.Sound checks) {y : Int}
    (y_fits : Fits 64 true y) :
    Lbl.emit checks (BitVec.ofInt 64 y) = some (decide (y ∈ Lbl.values)) := by
  have low_listed : Lbl.Low ∈ Lbl.bounds := List.mem_cons_self
  obtain ⟨lo, low⟩ := sound.folded _ low_listed
  have lo_fits := LabelExpr.fits low
  rw [emit, LabelExpr.emit_eq low (sound.computed _ low_listed)]
  cases range : Lbl.High with
  | none =>
      have single := @mem_values_of_single _ Lbl range lo y low
      rw [Option.map_some, Option.some.injEq, decide_eq_decide.mpr single, Bool.eq_iff_iff,
        beq_iff_eq, decide_eq_true_eq]
      exact ofInt_inj (by decide) y_fits lo_fits
  | some High =>
      have high_listed : High ∈ Lbl.bounds :=
        List.mem_cons_of_mem _ (Option.mem_toList.mpr range)
      obtain ⟨hi, high⟩ := sound.folded _ high_listed
      have hi_fits := LabelExpr.fits high
      have inside := @mem_values_of_range _ Lbl High range lo hi y low high
      dsimp only
      rw [Option.bind_some, LabelExpr.emit_eq high (sound.computed _ high_listed), Option.map_some,
        sle_ofInt (by decide) lo_fits y_fits, sle_ofInt (by decide) y_fits hi_fits,
        decide_eq_decide.mpr inside, Bool.decide_and]

/-- A label stands for ordinals of 64 bits only. -/
theorem CaseLabel.fits_of_mem {Lbl : CaseLabel turbo} {y : Int} (inside : y ∈ Lbl.values) :
    Fits 64 true y := by
  obtain ⟨R, noted, low, high⟩ := inside
  obtain ⟨lo, lo_eq, noted⟩ := Option.bind_eq_some_iff.mp noted
  obtain ⟨hi, hi_eq, noted⟩ := Option.bind_eq_some_iff.mp noted
  have lo_fits := LabelExpr.fits lo_eq
  have hi_fits : Fits 64 true hi := by
    split at hi_eq
    · exact LabelExpr.fits hi_eq
    · cases hi_eq
      exact lo_fits
  split at noted
  · cases noted
  · cases noted
    rw [fits_signed] at *
    exact ⟨lo_fits.1.trans low, high.trans_lt hi_fits.2⟩

/-- One of the labels of the arm has the value. -/
def CaseArm.Contains (arm : CaseArm turbo β) (y : Int) : Prop := ∃ Lbl ∈ arm.Labels, y ∈ Lbl.values

instance (arm : CaseArm turbo β) (y : Int) : Decidable (arm.Contains y) :=
  inferInstanceAs (Decidable (∃ Lbl ∈ arm.Labels, y ∈ Lbl.values))

theorem CaseArm.cond_eq {arm : CaseArm turbo β} (sound : ∀ Lbl ∈ arm.Labels, Lbl.Sound checks)
    {y : Int} (y_fits : Fits 64 true y) :
    arm.cond checks (BitVec.ofInt 64 y) = some (decide (arm.Contains y)) := by
  change arm.cond checks _ = some (decide (∃ Lbl ∈ arm.Labels, y ∈ Lbl.values))
  rw [cond]
  generalize arm.Labels = labels at sound ⊢
  induction labels using List.reverseRecOn with
  | nil => simp
  | append_singleton labels Lbl induction =>
      rw [List.foldl_append, List.foldl_cons, List.foldl_nil,
        induction fun other written => sound other (List.mem_append_left _ written),
        Option.bind_some, CaseLabel.emit_eq (sound Lbl (by simp)) y_fits, Option.map_some,
        ← Bool.decide_or]
      congr 2
      simp only [List.mem_append, List.mem_singleton, or_and_right, exists_or, exists_eq_left]

end Comparing

/-! ### The arm that is executed -/

section Executing

variable {turbo checks : Bool} {β : Type*} {arms : List (CaseArm turbo β)} {y : Int}
  {default : CaseOutcome β}

/-- The first arm that has the value is executed. -/
theorem emitArms_of_contains (sound : ∀ arm ∈ arms, ∀ Lbl ∈ arm.Labels, Lbl.Sound checks)
    (y_fits : Fits 64 true y) {start index : Nat} {arm : CaseArm turbo β}
    (here : arms[index]? = some arm) (contains : arm.Contains y)
    (first : ∀ before < index, ∀ other, arms[before]? = some other → ¬other.Contains y) :
    emitArms checks (BitVec.ofInt 64 y) default start arms = .arm (start + index) arm.Body := by
  induction arms generalizing start index with
  | nil => simp at here
  | cons head rest induction =>
      rw [emitArms, CaseArm.cond_eq (sound head List.mem_cons_self) y_fits]
      cases index with
      | zero =>
          obtain rfl : head = arm := Option.some.inj here
          rw [decide_eq_true contains]
          rfl
      | succ index =>
          rw [decide_eq_false (first 0 index.succ_pos head rfl)]
          have later := @induction (fun arm listed => sound arm (List.mem_cons_of_mem _ listed))
            (start + 1) index here
            fun before less other => first (before + 1) (Nat.succ_lt_succ less) other
          rw [Nat.add_right_comm] at later
          exact later

theorem emitArms_default (sound : ∀ arm ∈ arms, ∀ Lbl ∈ arm.Labels, Lbl.Sound checks)
    (y_fits : Fits 64 true y) {start : Nat} (unmatched : ∀ arm ∈ arms, ¬arm.Contains y) :
    emitArms checks (BitVec.ofInt 64 y) default start arms = default := by
  induction arms generalizing start with
  | nil => rfl
  | cons head rest induction =>
      rw [emitArms, CaseArm.cond_eq (sound head List.mem_cons_self) y_fits,
        decide_eq_false (unmatched head List.mem_cons_self)]
      exact induction (fun arm listed => sound arm (List.mem_cons_of_mem _ listed))
        fun arm listed => unmatched arm (List.mem_cons_of_mem _ listed)

/-- Arms whose labels have no value in common do not share one. -/
theorem eq_of_contains (apart : (arms.flatMap CaseArm.Labels).Pairwise CaseLabel.Apart)
    {i j : Nat} {first second : CaseArm turbo β} (at_i : arms[i]? = some first)
    (at_j : arms[j]? = some second) (in_first : first.Contains y) (in_second : second.Contains y) :
    i = j := by
  obtain ⟨a, a_listed, inA⟩ := in_first
  obtain ⟨b, b_listed, inB⟩ := in_second
  have pairs := List.pairwise_iff_getElem.mp (List.pairwise_flatMap.mp apart).2
  obtain ⟨i_lt, rfl⟩ := List.getElem?_eq_some_iff.mp at_i
  obtain ⟨j_lt, rfl⟩ := List.getElem?_eq_some_iff.mp at_j
  rcases Nat.lt_trichotomy i j with less | same | more
  · exact (pairs i j i_lt j_lt less a a_listed b b_listed y inA inB).elim
  · exact same
  · exact (pairs j i j_lt i_lt more b b_listed a a_listed y inB inA).elim

end Executing

/-! ### The selector -/

section Selecting

variable {turbo checks : Bool} {β : Type*}

/-- A value beyond 64 signed bits has the bits of a negative one, which must not be a label. -/
def OrdinalValue.Unmistaken (selector : OrdinalValue turbo) (S : CaseStmt turbo β) : Prop :=
  ¬Fits 64 true selector.value → ∀ Lbl ∈ S.labels, selector.value - 2 ^ 64 ∉ Lbl.values

/-- The number that stands for the value in 64 signed bits is one of the same labels. -/
theorem OrdinalValue.exists_eq {selector : OrdinalValue turbo} {S : CaseStmt turbo β}
    (unmistaken : selector.Unmistaken S) :
    ∃ y, Fits 64 true y ∧ selector.i64 = BitVec.ofInt 64 y ∧
      ∀ arm ∈ S.Arms, arm.Contains y ↔ arm.Contains selector.value := by
  by_cases fits : Fits 64 true selector.value
  · exact ⟨selector.value, fits, selector.i64_eq, fun arm _ => Iff.rfl⟩
  · have beyond := (selector.beyond fits).2
    refine ⟨selector.value - 2 ^ 64, by rw [fits_signed]; omega, ?_, ?_⟩
    · rw [selector.i64_eq, ofInt_eq_iff]
      omega
    · intro arm listed
      constructor
      · rintro ⟨Lbl, written, inside⟩
        exact (unmistaken fits Lbl (List.mem_flatMap.mpr ⟨arm, listed, written⟩) inside).elim
      · rintro ⟨Lbl, written, inside⟩
        exact (fits (CaseLabel.fits_of_mem inside)).elim

/-- An accepted statement executes the arm that has the value, and it is the only one that has it;
what happens otherwise is the dialect's. -/
structure CaseStmt.Executes (S : CaseStmt turbo β) (checks : Bool) (selector : OrdinalValue turbo) :
    Prop where
  arm : ∀ (index : Nat) (arm : CaseArm turbo β), S.Arms[index]? = some arm →
    arm.Contains selector.value →
      S.emitCase checks selector.i64 = .arm index arm.Body ∧
        ∀ (other : Nat) (second : CaseArm turbo β), S.Arms[other]? = some second →
          second.Contains selector.value → other = index
  unmatched : (∀ arm ∈ S.Arms, ¬arm.Contains selector.value) →
    S.emitCase checks selector.i64 =
      if S.HasElse then .otherwise S.Else
      else if turbo then .nothing else .plang_err_no_case selector.i64

theorem CaseStmt.executes {S : CaseStmt turbo β} {EnumValues : Nat → List Text}
    (accepted : (S.check EnumValues).1 = [])
    (computed : ∀ Lbl ∈ S.labels, ∀ E ∈ Lbl.bounds, E.Computed checks)
    {selector : OrdinalValue turbo} (unmistaken : selector.Unmistaken S) :
    S.Executes checks selector := by
  have checked : (checkLabels (spellOrdinal EnumValues S.SelType) S.SelType S.labels).errors = [] :=
    accepted
  have sound : ∀ arm ∈ S.Arms, ∀ Lbl ∈ arm.Labels, Lbl.Sound checks := by
    intro arm listed Lbl written
    have label := List.mem_flatMap.mpr ⟨arm, listed, written⟩
    refine ⟨fun E bound => ?_, computed Lbl label⟩
    obtain ⟨typed, constant⟩ := errors_checkLabels checked Lbl label E bound
    exact LabelExpr.constBound_isSome typed constant
  have apart : S.labels.Pairwise CaseLabel.Apart := by
    by_contra shared
    obtain ⟨value, reported⟩ := (repeated_checkLabels S.labels).mpr shared
    rw [checked] at reported
    exact List.not_mem_nil reported
  obtain ⟨y, y_fits, sel_eq, same⟩ := selector.exists_eq unmistaken
  constructor
  · intro index arm here contains
    have listed := List.mem_of_getElem? here
    have only : ∀ (other : Nat) (second : CaseArm turbo β), S.Arms[other]? = some second →
        second.Contains selector.value → other = index :=
      fun other second at_other contained => eq_of_contains apart at_other here contained contains
    refine ⟨?_, only⟩
    rw [emitCase, sel_eq, emitArms_of_contains sound y_fits here ((same arm listed).mpr contains),
      Nat.zero_add]
    intro before less other at_before contained
    have again := only before other at_before
      ((same other (List.mem_of_getElem? at_before)).mp contained)
    exact less.ne again
  · intro unmatched
    rw [emitCase, sel_eq, emitArms_default sound y_fits
      fun arm listed contained => unmatched arm listed ((same arm listed).mp contained)]
    rfl

end Selecting

/-! ### The values that are left out -/

section Warning

variable {turbo : Bool} {β : Type*} {S : CaseStmt turbo β} {EnumValues : Nat → List Text}
  {Lo Hi : Int}

/-- The values between two bounds that no label has. -/
def CaseStmt.missing (S : CaseStmt turbo β) (Lo Hi : Int) : Set Int :=
  {v | (Lo ≤ v ∧ v ≤ Hi) ∧ ¬∃ Lbl ∈ S.labels, v ∈ Lbl.values}

/-- The checker asks for the values that are left out: there is no `otherwise` part, leaving them
out is an error of the dialect, and the program has written down the few that there are. -/
structure CaseStmt.Asked (S : CaseStmt turbo β) (Lo Hi : Int) : Prop where
  no_else : S.HasElse = false
  dialect : turbo = false
  written : isWrittenDown S.SelType = true
  range : S.SelType.ordinalRange = some (Lo, Hi)
  few : Hi - Lo + 1 ≤ MostToEnumerate

/-- The checker does not ask for the values that are left out. -/
inductive CaseStmt.Spared (S : CaseStmt turbo β) : Prop where
  | otherwise (has_else : S.HasElse = true)
  | dialect (turbo : turbo = true)
  | unwritten (unwritten : isWrittenDown S.SelType = false)
  | unbounded (unbounded : S.SelType.ordinalRange = none)
  | many (Lo Hi : Int) (range : S.SelType.ordinalRange = some (Lo, Hi))
      (many : MostToEnumerate < Hi - Lo + 1) (counted : Hi - Lo + 1 < 2 ^ 63)

/-- The statement is warned of exactly where it leaves out a value; the warning names the values that are left out,
in ascending order (of more than three the first three), and says how many there are. -/
structure CaseStmt.Warned (S : CaseStmt turbo β) (EnumValues : Nat → List Text) (Lo Hi : Int) :
    Prop where
  warned : (∃ What, (S.check EnumValues).2 = .warn_case_not_exhaustive What) ↔
    (S.missing Lo Hi).Nonempty
  named : ∀ What, (S.check EnumValues).2 = .warn_case_not_exhaustive What →
    ∃ values : List Int, values.Pairwise (· < ·) ∧ (∀ v, v ∈ values ↔ v ∈ S.missing Lo Hi) ∧
      values.length = (S.missing Lo Hi).ncard ∧
      What = describe (spellOrdinal EnumValues S.SelType) (.ofList values)

theorem CaseStmt.check_eq_quiet (spared : S.Spared) : (S.check EnumValues).2 = .quiet := by
  simp only [check, coverage]
  cases spared with
  | otherwise has_else => rw [if_pos has_else]
  | dialect turbo =>
      rw [if_pos turbo]
      split <;> rfl
  | unwritten unwritten =>
      rw [unwritten]
      split
      · rfl
      · split <;> rfl
  | unbounded unbounded =>
      rw [unbounded]
      split
      · rfl
      · split
        · rfl
        · split <;> rfl
  | many Lo Hi range many counted =>
      have whole : (BitVec.ofInt 64 (Hi - Lo + 1)).toInt = Hi - Lo + 1 := by
        refine toInt_ofInt_of_fits (by decide) ?_
        rw [MostToEnumerate] at many
        rw [fits_signed]
        omega
      simp only [range, whole, gt_iff_lt, if_pos many]
      split
      · rfl
      · split
        · rfl
        · split
          · rfl
          · split <;> rfl

/-- The values that are walked through are those that no label has. -/
theorem CaseStmt.check_of_asked (asked : S.Asked Lo Hi) :
    let missing := unmatchedValues (intervals S.labels) Lo Hi
    (S.check EnumValues).2 =
      if missing = [] then .quiet
      else .warn_case_not_exhaustive
        (describe (spellOrdinal EnumValues S.SelType) (.ofList missing)) := by
  have dialect := asked.dialect
  subst dialect
  simp only [check, coverage, asked.no_else, asked.written, asked.range, Bool.false_eq_true,
    if_false, Bool.not_true, seen_checkLabels, walkValues_eq]
  by_cases none_left : Lo > Hi
  · have empty : unmatchedValues (intervals S.labels) Lo Hi = [] := by
      rw [List.eq_nil_iff_forall_not_mem]
      intro v listed
      have between := (mem_unmatchedValues.mp listed).1
      omega
    rw [if_pos none_left, empty, if_pos rfl]
  · have few := asked.few
    rw [MostToEnumerate] at few
    have whole : (BitVec.ofInt 64 (Hi - Lo + 1)).toInt = Hi - Lo + 1 := by
      refine toInt_ofInt_of_fits (by decide) ?_
      rw [fits_signed]
      omega
    rw [if_neg none_left, whole, if_neg (not_lt.mpr asked.few)]
    simp only [Unmatched.ofList, List.length_eq_zero_iff]

theorem CaseStmt.mem_missing {v : Int} :
    v ∈ unmatchedValues (intervals S.labels) Lo Hi ↔ v ∈ S.missing Lo Hi :=
  mem_unmatchedValues

theorem CaseStmt.ncard_missing :
    (S.missing Lo Hi).ncard = (unmatchedValues (intervals S.labels) Lo Hi).length := by
  have distinct : (unmatchedValues (intervals S.labels) Lo Hi).Nodup :=
    ((valuesFrom_ascending Lo Hi).imp fun less => less.ne).filter _
  have same : S.missing Lo Hi = (unmatchedValues (intervals S.labels) Lo Hi).toFinset := by
    ext v
    rw [Finset.mem_coe, List.mem_toFinset, mem_missing]
  rw [same, Set.ncard_coe_finset, List.toFinset_card_of_nodup distinct]

theorem CaseStmt.warned_of_asked (asked : S.Asked Lo Hi) : S.Warned EnumValues Lo Hi := by
  have check_eq := @check_of_asked _ _ S EnumValues Lo Hi asked
  dsimp only at check_eq
  constructor
  · rw [check_eq]
    constructor
    · rintro ⟨What, warned⟩
      split at warned
      · cases warned
      · rename_i some_left
        obtain ⟨v, listed⟩ := List.exists_mem_of_ne_nil _ some_left
        exact ⟨v, mem_missing.mp listed⟩
    · rintro ⟨v, left_out⟩
      have listed := mem_missing.mpr left_out
      exact ⟨_, if_neg (List.ne_nil_of_mem listed)⟩
  · intro What warned
    rw [check_eq] at warned
    split at warned
    · cases warned
    · cases warned
      exact ⟨_, (valuesFrom_ascending Lo Hi).filter _, fun _ => mem_missing, ncard_missing.symm, rfl⟩

end Warning

/-- A case statement is checked and lowered consistently: a label is reported as repeated if, and
only if, two of them share a value; the statement is warned of as its values are left out, where it
is asked for them; and an accepted statement whose labels are computed as they were folded executes
the one arm that has the value of the selector, and otherwise what the dialect does. -/
theorem case_consistent {turbo : Bool} {β : Type*} (S : CaseStmt turbo β)
    (EnumValues : Nat → List Text) (checks : Bool) :
    (Repeated (S.check EnumValues).1 ↔
      ¬S.labels.Pairwise CaseLabel.Apart) ∧
    (∀ Lo Hi, S.Asked Lo Hi → S.Warned EnumValues Lo Hi) ∧
    (S.Spared → (S.check EnumValues).2 = .quiet) ∧
    ((S.check EnumValues).1 = [] →
      (∀ Lbl ∈ S.labels, ∀ E ∈ Lbl.bounds, E.Computed checks) →
        ∀ selector : OrdinalValue turbo, selector.Unmistaken S → S.Executes checks selector) :=
  ⟨repeated_checkLabels S.labels, fun _ _ => CaseStmt.warned_of_asked, CaseStmt.check_eq_quiet,
    fun accepted computed _ => CaseStmt.executes accepted computed⟩

/-- `case d of 1: …; 2..3: … end` with a `1..4`. -/
def upToThree : CaseStmt false Nat where
  SelType := .subrange (.integer 64 true) 1 4
  Arms := [⟨[⟨.const (.literal 1), none⟩], 0⟩,
    ⟨[⟨.const (.literal 2), some (.const (.literal 3))⟩], 1⟩]
  HasElse := false
  Else := none

theorem case_consistent_upToThree :
    upToThree.Warned (fun _ => []) 1 4 ∧
      ∀ selector : OrdinalValue false, upToThree.Executes true selector := by
  have consistent := case_consistent upToThree (fun _ => []) true
  refine ⟨consistent.2.1 1 4 ⟨rfl, rfl, rfl, rfl, by decide⟩, fun selector => ?_⟩
  refine consistent.2.2.2 (by decide) ?_ selector fun beyond => (beyond (selector.plain rfl)).elim
  intro Lbl written E bound
  have literal : ∃ bits : BitVec 64, E = .const (.literal bits) := by
    simp only [CaseStmt.labels, upToThree, List.flatMap_cons, List.flatMap_nil, List.append_nil,
      List.mem_append, List.mem_singleton] at written
    rcases written with rfl | rfl
    · exact ⟨1, by simpa [CaseLabel.bounds] using bound⟩
    · simp only [CaseLabel.bounds, Option.toList_some, List.mem_cons, List.not_mem_nil,
        or_false] at bound
      rcases bound with rfl | rfl
      · exact ⟨2, rfl⟩
      · exact ⟨3, rfl⟩
  obtain ⟨bits, rfl⟩ := literal
  intro v folded
  exact ((ConstExpr.decided_literal bits v folded).1.mpr trivial).1

/-- `case c of 'a': … end` with a char. -/
def onlyA : CaseStmt false Unit where
  SelType := .char
  Arms := [⟨[⟨.const (.constant
    ⟨.char, by decide, 97, by decide, 8, by decide, by decide, by decide⟩), none⟩], ()⟩]
  HasElse := false
  Else := none

/-- The other characters are left out, and nothing is said. -/
theorem characters_left_out :
    (onlyA.check fun _ => []) = ([], .quiet) ∧ 98 ∈ onlyA.missing 0 255 ∧
      onlyA.SelType.ordinalRange = some (0, 255) := by
  refine ⟨by decide, ⟨by decide, ?_⟩, rfl⟩
  decide

end Plang.CodeGen
