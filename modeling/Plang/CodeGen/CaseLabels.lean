import Mathlib.Data.List.Basic
import Mathlib.Order.Interval.Set.Basic
import Plang.Basic.Text
import Plang.CodeGen.ConstFold

/-!
# The labels of a case statement

Every label is an interval of ordinals, and an interval is compared with those before it.  A
statement without an `otherwise` part is told which values of a small selector type no label has.
-/

namespace Plang.CodeGen

open Plang.Sema MachineInt

/-- The expressions that can be written as a label. -/
inductive LabelExpr (turbo : Bool) where
  | const (e : ConstExpr turbo)
  /-- An expression that no folder takes. -/
  | runtime (type : OrdinalType)
  /-- An expression with an error inside, which is reported there. -/
  | erroneous

structure CaseLabel (turbo : Bool) where
  Low : LabelExpr turbo
  High : Option (LabelExpr turbo)

structure CaseArm (turbo : Bool) (β : Type*) where
  Labels : List (CaseLabel turbo)
  Body : β

structure CaseStmt (turbo : Bool) (β : Type*) where
  /-- The type of the selector. -/
  SelType : OrdinalType
  Arms : List (CaseArm turbo β)
  HasElse : Bool
  Else : Option β

/-- The labels in the order they are written in. -/
def CaseStmt.labels {turbo : Bool} {β : Type*} (S : CaseStmt turbo β) : List (CaseLabel turbo) :=
  S.Arms.flatMap CaseArm.Labels

structure LabelInterval where
  Lo : Int
  Hi : Int
  deriving DecidableEq, Repr

/-- The ordinals of an interval. -/
def LabelInterval.values (R : LabelInterval) : Set Int := {v | R.Lo ≤ v ∧ v ≤ R.Hi}

inductive CaseError where
  | err_in_label
  | err_case_label_mismatch (T SelType : OrdinalType)
  | err_case_label_not_const
  | err_case_label_duplicate (value : Text)
  deriving DecidableEq

/-! ### The checker -/

/-- A value as the program would have written it; the names of an enumeration are those of its
declaration. -/
def spellOrdinal (EnumValues : Nat → List Text) (T : OrdinalType) (V : Int) : Text :=
  let plain := (toString V).toList
  match (match T with | .subrange SubBase _ _ => SubBase | Base => Base) with
  | .char =>
      if 32 ≤ V ∧ V < 127 then ['\'', Char.ofNat V.toNat, '\'']
      else "chr(".toList ++ plain ++ ")".toList
  | .enum decl _ => if 0 ≤ V then (EnumValues decl).getD V.toNat plain else plain
  | .boolean => if V = 0 then "false".toList else "true".toList
  | .looseBoolean _ => if V = 0 then "false".toList else "true".toList
  | .integer _ _ => plain
  | .subrange _ _ _ => plain

def overlapsSeen (Seen : List LabelInterval) (Lo Hi : Int) : Bool :=
  Seen.any fun R => Lo ≤ R.Hi ∧ R.Lo ≤ Hi

namespace LabelExpr

variable {turbo : Bool}

def constBound : LabelExpr turbo → Option Int
  | .const e => e.constBound
  | .runtime _ => none
  | .erroneous => none

/-- The type of a label, unless there is an error inside. -/
def type? : LabelExpr turbo → Option OrdinalType
  | .const e => some e.type
  | .runtime type => some type
  | .erroneous => none

/-- The type of a label has to go with that of the selector, one way or the other. -/
def checkLabel (SelType : OrdinalType) (E : LabelExpr turbo) : List CaseError :=
  match E.type? with
  | none => [.err_in_label]
  | some T =>
      if !SelType.isAssignCompatible T && !T.isAssignCompatible SelType then
        [.err_case_label_mismatch T SelType]
      else []

def mustBeConst (E : LabelExpr turbo) : List CaseError :=
  if E.constBound.isNone && E.type?.isSome then [.err_case_label_not_const] else []

end LabelExpr

namespace CaseLabel

variable {turbo : Bool}

/-- The expressions of the label. -/
def bounds (Lbl : CaseLabel turbo) : List (LabelExpr turbo) := Lbl.Low :: Lbl.High.toList

/-- The interval that is noted of a label: none for a bound without a value, and none for a range
without one. -/
def interval? (Lbl : CaseLabel turbo) : Option LabelInterval :=
  Lbl.Low.constBound.bind fun Lo =>
    (match Lbl.High with | some High => High.constBound | none => some Lo).bind fun Hi =>
      if Hi < Lo then none else some ⟨Lo, Hi⟩

/-- The values that the label stands for. -/
def values (Lbl : CaseLabel turbo) : Set Int := {v | ∃ R ∈ Lbl.interval?, v ∈ R.values}

/-- No value is one of both labels. -/
def Apart (first second : CaseLabel turbo) : Prop := ∀ v ∈ first.values, v ∉ second.values

instance (Lbl : CaseLabel turbo) (v : Int) : Decidable (v ∈ Lbl.values) :=
  decidable_of_iff ((Lbl.interval?.any fun R => R.Lo ≤ v ∧ v ≤ R.Hi) = true)
    (by simp [values, LabelInterval.values, Option.any_eq_true])

end CaseLabel

/-- The intervals that were seen, and what was reported. -/
structure Checked where
  Seen : List LabelInterval
  errors : List CaseError

section Checker

variable {turbo : Bool} {β : Type*} (spell : Int → Text)

def noteInterval (seen : Checked) (R : LabelInterval) : Checked :=
  { Seen := seen.Seen ++ [R]
    errors := seen.errors ++
      if overlapsSeen seen.Seen R.Lo R.Hi then [.err_case_label_duplicate (spell R.Lo)] else [] }

/-- The check of one label. -/
def checkCaseLabel (SelType : OrdinalType) (seen : Checked) (Lbl : CaseLabel turbo) : Checked :=
  let seen : Checked :=
    { seen with
      errors := seen.errors ++ Lbl.bounds.flatMap (LabelExpr.checkLabel SelType) ++
        Lbl.bounds.flatMap LabelExpr.mustBeConst }
  match Lbl.interval? with
  | none => seen
  | some R => noteInterval spell seen R

/-- All the labels. -/
def checkLabels (SelType : OrdinalType) (labels : List (CaseLabel turbo)) : Checked :=
  labels.foldl (checkCaseLabel spell SelType) ⟨[], []⟩

/-! ### The warning -/

/-- The values that no label has: the first three, and how many there are. -/
structure Unmatched where
  Missing : List Int
  MissingCount : Nat
  deriving DecidableEq, Repr

def noteMissing (Seen : List LabelInterval) (found : Unmatched) (V : Int) : Unmatched :=
  if overlapsSeen Seen V V then found
  else
    ⟨if found.Missing.length < 3 then found.Missing ++ [V] else found.Missing,
      found.MissingCount + 1⟩

/-- The values from one to another. -/
def valuesFrom (Lo Hi : Int) : List Int :=
  (List.range (Hi + 1 - Lo).toNat).map fun k : Nat => Lo + (k : Int)

def walkValues (Seen : List LabelInterval) (Lo Hi : Int) : Unmatched :=
  (valuesFrom Lo Hi).foldl (noteMissing Seen) ⟨[], 0⟩

/-- Values in a row; `or` stands before the last one if nothing follows. -/
def inWords (complete : Bool) : List Text → Text
  | [] => []
  | [word] => word
  | [word, last] => word ++ (if complete then " or ".toList else ", ".toList) ++ last
  | word :: words => word ++ ", ".toList ++ inWords complete words

def describe (found : Unmatched) : Text :=
  let more := found.MissingCount - found.Missing.length
  inWords (more == 0) (found.Missing.map spell) ++
    if more = 0 then [] else " (and ".toList ++ (toString more).toList ++ " more)".toList

/-- Only a range that the program wrote down is one that it meant to cover. -/
def isWrittenDown : OrdinalType → Bool
  | .subrange _ _ _ => true
  | .enum _ _ => true
  | .boolean => true
  | .looseBoolean _ => true
  | .integer _ _ => false
  | .char => false

def MostToEnumerate : Int := 1024

/-- The checker's verdict on the values that no label has. -/
inductive Coverage where
  | quiet
  | warn_case_not_exhaustive (What : Text)
  deriving DecidableEq

/-- The number of values is counted in 64 bits. -/
def coverage (SelType : OrdinalType) (Seen : List LabelInterval) (HasElse : Bool) : Coverage :=
  if HasElse then .quiet
  else if turbo then .quiet
  else if !isWrittenDown SelType then .quiet
  else
    match SelType.ordinalRange with
    | none => .quiet
    | some (Lo, Hi) =>
        if Lo > Hi then .quiet
        else if (BitVec.ofInt 64 (Hi - Lo + 1)).toInt > MostToEnumerate then .quiet
        else
          let found := walkValues Seen Lo Hi
          if found.MissingCount = 0 then .quiet
          else .warn_case_not_exhaustive (describe spell found)

end Checker

/-- The check of a case statement: what is reported of its labels, and of what they leave out. -/
def CaseStmt.check {turbo : Bool} {β : Type*} (EnumValues : Nat → List Text)
    (S : CaseStmt turbo β) : List CaseError × Coverage :=
  let spell := spellOrdinal EnumValues S.SelType
  let checked := checkLabels spell S.SelType S.labels
  (checked.errors, @coverage turbo spell S.SelType checked.Seen S.HasElse)

/-! ### Labels that share a value -/

section Sharing

variable {turbo : Bool}

theorem CaseLabel.interval?_ordered {Lbl : CaseLabel turbo} {R : LabelInterval}
    (noted : Lbl.interval? = some R) : R.Lo ≤ R.Hi := by
  obtain ⟨Lo, -, noted⟩ := Option.bind_eq_some_iff.mp noted
  obtain ⟨Hi, -, noted⟩ := Option.bind_eq_some_iff.mp noted
  split at noted
  · cases noted
  · rename_i ordered
    cases noted
    exact not_lt.mp ordered

/-- The labels as intervals. -/
def intervals (labels : List (CaseLabel turbo)) : List LabelInterval :=
  labels.filterMap CaseLabel.interval?

/-- Intervals with values in them overlap where they share one: the greater one of their first
values. -/
theorem overlap_iff {R I : LabelInterval} (R_ordered : R.Lo ≤ R.Hi) (I_ordered : I.Lo ≤ I.Hi) :
    (I.Lo ≤ R.Hi ∧ R.Lo ≤ I.Hi) ↔ ∃ v, v ∈ R.values ∧ v ∈ I.values := by
  constructor
  · rintro ⟨low, high⟩
    exact ⟨max R.Lo I.Lo, ⟨le_max_left _ _, max_le R_ordered low⟩,
      ⟨le_max_right _ _, max_le high I_ordered⟩⟩
  · rintro ⟨v, inR, inI⟩
    exact ⟨inI.1.trans inR.2, inR.1.trans inI.2⟩

theorem overlapsSeen_iff {labels : List (CaseLabel turbo)} {I : LabelInterval}
    (ordered : I.Lo ≤ I.Hi) :
    overlapsSeen (intervals labels) I.Lo I.Hi = true ↔
      ∃ Lbl ∈ labels, ∃ v, v ∈ Lbl.values ∧ v ∈ I.values := by
  simp only [overlapsSeen, List.any_eq_true, decide_eq_true_eq]
  constructor
  · rintro ⟨R, listed, overlap⟩
    obtain ⟨Lbl, written, noted⟩ := List.mem_filterMap.mp listed
    obtain ⟨v, inR, inI⟩ := (overlap_iff (CaseLabel.interval?_ordered noted) ordered).mp overlap
    exact ⟨Lbl, written, v, ⟨R, noted, inR⟩, inI⟩
  · rintro ⟨Lbl, written, v, ⟨R, noted, inR⟩, inI⟩
    exact ⟨R, List.mem_filterMap.mpr ⟨Lbl, written, noted⟩,
      (overlap_iff (CaseLabel.interval?_ordered noted) ordered).mpr ⟨v, inR, inI⟩⟩

/-- A value is one of the labels. -/
theorem overlapsSeen_value {labels : List (CaseLabel turbo)} (v : Int) :
    overlapsSeen (intervals labels) v v = true ↔ ∃ Lbl ∈ labels, v ∈ Lbl.values := by
  rw [@overlapsSeen_iff _ labels ⟨v, v⟩ le_rfl]
  simp [LabelInterval.values, ← le_antisymm_iff]

/-- A label that repeats a value was reported. -/
def Repeated (errors : List CaseError) : Prop :=
  ∃ value, CaseError.err_case_label_duplicate value ∈ errors

variable {spell : Int → Text} {SelType : OrdinalType}

theorem not_repeated_of_label (Lbl : CaseLabel turbo) :
    ¬Repeated (Lbl.bounds.flatMap (LabelExpr.checkLabel SelType) ++
      Lbl.bounds.flatMap LabelExpr.mustBeConst) := by
  rintro ⟨value, reported⟩
  rcases List.mem_append.mp reported with reported | reported
  · obtain ⟨E, -, reported⟩ := List.mem_flatMap.mp reported
    rw [LabelExpr.checkLabel] at reported
    split at reported
    · simp at reported
    · split at reported <;> simp at reported
  · obtain ⟨E, -, reported⟩ := List.mem_flatMap.mp reported
    rw [LabelExpr.mustBeConst] at reported
    split at reported <;> simp at reported

theorem repeated_append {first second : List CaseError} :
    Repeated (first ++ second) ↔ Repeated first ∨ Repeated second := by
  simp only [Repeated, List.mem_append, exists_or]

theorem seen_checkCaseLabel (seen : Checked) (Lbl : CaseLabel turbo) :
    (checkCaseLabel spell SelType seen Lbl).Seen = seen.Seen ++ Lbl.interval?.toList := by
  rw [checkCaseLabel]
  cases Lbl.interval? with
  | none => exact (List.append_nil _).symm
  | some R => rfl

/-- A label adds a report of its own where its interval overlaps one before it. -/
theorem repeated_checkCaseLabel (seen : Checked) (Lbl : CaseLabel turbo) :
    Repeated (checkCaseLabel spell SelType seen Lbl).errors ↔
      Repeated seen.errors ∨ ∃ R ∈ Lbl.interval?, overlapsSeen seen.Seen R.Lo R.Hi = true := by
  have unrepeated := @not_repeated_of_label turbo SelType Lbl
  rw [checkCaseLabel]
  cases Lbl.interval? with
  | none =>
      dsimp only
      rw [List.append_assoc, repeated_append]
      simp [unrepeated]
  | some R =>
      have added : Repeated (if overlapsSeen seen.Seen R.Lo R.Hi then
          [.err_case_label_duplicate (spell R.Lo)] else []) ↔
          overlapsSeen seen.Seen R.Lo R.Hi = true := by
        split
        · rename_i overlaps
          exact ⟨fun _ => overlaps, fun _ => ⟨_, List.mem_singleton_self _⟩⟩
        · rename_i apart
          exact ⟨fun ⟨_, listed⟩ => (List.not_mem_nil listed).elim,
            fun overlaps => (apart overlaps).elim⟩
      dsimp only [noteInterval]
      rw [repeated_append, added, List.append_assoc, repeated_append]
      simp [unrepeated]

theorem seen_checkLabels (labels : List (CaseLabel turbo)) :
    (checkLabels spell SelType labels).Seen = intervals labels := by
  induction labels using List.reverseRecOn with
  | nil => rfl
  | append_singleton labels Lbl induction =>
      rw [checkLabels, List.foldl_append] at *
      rw [List.foldl_cons, List.foldl_nil, seen_checkCaseLabel, induction, intervals, intervals,
        List.filterMap_append]
      cases noted : Lbl.interval? <;> simp [noted]

/-- A repeated value is reported if, and only if, two labels share one. -/
theorem repeated_checkLabels (labels : List (CaseLabel turbo)) :
    Repeated (checkLabels spell SelType labels).errors ↔
      ¬labels.Pairwise CaseLabel.Apart := by
  induction labels using List.reverseRecOn with
  | nil => simp [checkLabels, Repeated]
  | append_singleton labels Lbl induction =>
      have seen := @seen_checkLabels turbo spell SelType labels
      rw [checkLabels] at induction seen ⊢
      rw [List.foldl_append, List.foldl_cons, List.foldl_nil, repeated_checkCaseLabel, induction,
        seen, List.pairwise_append]
      have last : (∃ R ∈ Lbl.interval?, overlapsSeen (intervals labels) R.Lo R.Hi = true) ↔
          ∃ first ∈ labels, ¬first.Apart Lbl := by
        simp only [CaseLabel.Apart, not_forall, not_not, exists_prop]
        constructor
        · rintro ⟨R, noted, overlaps⟩
          obtain ⟨first, written, v, inFirst, inR⟩ :=
            (overlapsSeen_iff (CaseLabel.interval?_ordered noted)).mp overlaps
          exact ⟨first, written, v, inFirst, R, noted, inR⟩
        · rintro ⟨first, written, v, inFirst, R, noted, inR⟩
          exact ⟨R, noted, (overlapsSeen_iff (CaseLabel.interval?_ordered noted)).mpr
            ⟨first, written, v, inFirst, inR⟩⟩
      rw [last]
      simp only [List.pairwise_singleton, true_and, List.mem_singleton, forall_eq]
      by_cases apart : labels.Pairwise CaseLabel.Apart
      · simp [apart]
      · simp [apart]

end Sharing

/-! ### Values that no label has -/

section Covering

variable {turbo : Bool}

theorem mem_valuesFrom {Lo Hi v : Int} : v ∈ valuesFrom Lo Hi ↔ Lo ≤ v ∧ v ≤ Hi := by
  simp only [valuesFrom, List.mem_map, List.mem_range]
  constructor
  · rintro ⟨k, below, rfl⟩
    omega
  · rintro ⟨low, high⟩
    exact ⟨(v - Lo).toNat, by omega, by omega⟩

theorem valuesFrom_ascending (Lo Hi : Int) : (valuesFrom Lo Hi).Pairwise (· < ·) := by
  rw [valuesFrom, List.pairwise_map]
  exact List.pairwise_lt_range.imp fun less => by omega

/-- The values of a range that no label has, in ascending order. -/
def unmatchedValues (Seen : List LabelInterval) (Lo Hi : Int) : List Int :=
  (valuesFrom Lo Hi).filter fun V => !overlapsSeen Seen V V

/-- The first three of some values, and how many there are. -/
def Unmatched.ofList (values : List Int) : Unmatched := ⟨values.take 3, values.length⟩

theorem noteMissing_ofList (Seen : List LabelInterval) (values : List Int) (V : Int) :
    noteMissing Seen (.ofList values) V =
      .ofList (values ++ if overlapsSeen Seen V V then [] else [V]) := by
  rw [noteMissing]
  split
  · rw [List.append_nil]
  · simp only [Unmatched.ofList, List.length_take, List.take_append, List.length_append,
      List.length_singleton]
    congr 1
    split
    · rename_i few
      obtain ⟨more, more_eq⟩ : ∃ more, 3 - values.length = more + 1 :=
        ⟨3 - values.length - 1, by omega⟩
      rw [more_eq, List.take_succ_cons, List.take_nil]
    · rename_i many
      have full : 3 - values.length = 0 := by omega
      rw [full, List.take_zero, List.append_nil]

theorem foldl_noteMissing (Seen : List LabelInterval) (found rest : List Int) :
    rest.foldl (noteMissing Seen) (.ofList found) =
      .ofList (found ++ rest.filter fun V => !overlapsSeen Seen V V) := by
  induction rest generalizing found with
  | nil => simp
  | cons V rest induction =>
      rw [List.foldl_cons, noteMissing_ofList, induction, List.append_assoc, List.filter_cons]
      congr 2
      cases overlapsSeen Seen V V <;> rfl

theorem walkValues_eq (Seen : List LabelInterval) (Lo Hi : Int) :
    walkValues Seen Lo Hi = .ofList (unmatchedValues Seen Lo Hi) :=
  foldl_noteMissing Seen [] (valuesFrom Lo Hi)

theorem mem_unmatchedValues {labels : List (CaseLabel turbo)} {Lo Hi v : Int} :
    v ∈ unmatchedValues (intervals labels) Lo Hi ↔
      (Lo ≤ v ∧ v ≤ Hi) ∧ ¬∃ Lbl ∈ labels, v ∈ Lbl.values := by
  rw [unmatchedValues, List.mem_filter, mem_valuesFrom, ← overlapsSeen_value]
  simp

end Covering

end Plang.CodeGen
