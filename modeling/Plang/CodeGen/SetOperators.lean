import Plang.CodeGen.SetOps

/-!
# When operators on sets are exact

An operator on two sets gives the set, or the truth value, that it gives on the ordinals if and only
if the window its operands are moved to shows every ordinal that its answer can depend on.  The
window of a union that spans both operands, and that of a comparison, may be too narrow for the
upper one.
-/

namespace Plang.CodeGen

open Plang.Sema BitWindow

/-- The window shows what the answer depends on, for operands of these types. -/
def Shown (op : SetOp) (left right shown : Set Int) : Prop :=
  match op with
  | .plus => left ⊆ shown ∧ right ⊆ shown
  | .symDiff => left ⊆ shown ∧ right ⊆ shown
  | .equal => left ⊆ shown ∧ right ⊆ shown
  | .notEqual => left ⊆ shown ∧ right ⊆ shown
  | .times => left ∩ right ⊆ shown
  | .minus => left ⊆ shown
  | .lessThanOrEqual => left ⊆ shown
  | .greaterThanOrEqual => right ⊆ shown

section Sets

variable {op : SetOp} {left right shown a b : Set Int}

/-- What the window does not show does not change the answer. -/
theorem meaning_of_shown (fits : Shown op left right shown) (a_sub : a ⊆ left) (b_sub : b ⊆ right) :
    meaning op (a ∩ shown) (b ∩ shown) = meaning op a b := by
  have keep {part whole : Set Int} (whole_shown : whole ⊆ shown) (sub : part ⊆ whole) :
      part ∩ shown = part := Set.inter_eq_left.mpr (sub.trans whole_shown)
  cases op with
  | plus => rw [keep fits.1 a_sub, keep fits.2 b_sub]
  | symDiff => rw [keep fits.1 a_sub, keep fits.2 b_sub]
  | equal => rw [keep fits.1 a_sub, keep fits.2 b_sub]
  | notEqual => rw [keep fits.1 a_sub, keep fits.2 b_sub]
  | times =>
      have both : a ∩ b ⊆ shown := (Set.inter_subset_inter a_sub b_sub).trans fits
      rw [meaning, meaning, ← Set.inter_inter_distrib_right, Set.inter_eq_left.mpr both]
  | minus =>
      rw [keep fits a_sub, meaning, meaning, Set.sdiff_inter,
        Set.sdiff_eq_empty.mpr (a_sub.trans fits), Set.union_empty]
  | lessThanOrEqual =>
      rw [keep fits a_sub, meaning, meaning, Set.subset_inter_iff, and_iff_left (a_sub.trans fits)]
  | greaterThanOrEqual =>
      rw [keep fits b_sub, meaning, meaning, Set.subset_inter_iff, and_iff_left (b_sub.trans fits)]

theorem single_inter {x : Int} (hidden : x ∉ shown) : ({x} : Set Int) ∩ shown = ∅ :=
  Set.singleton_inter_eq_empty.mpr hidden

/-- An ordinal that is not shown changes the answer, alone or against an equal one. -/
theorem shown_of_meaning
    (left_exact : ∀ x ∈ left, meaning op ({x} ∩ shown) (∅ ∩ shown) = meaning op {x} ∅)
    (right_exact : ∀ y ∈ right, meaning op (∅ ∩ shown) ({y} ∩ shown) = meaning op ∅ {y})
    (common_exact : ∀ x ∈ left ∩ right,
      meaning op ({x} ∩ shown) ({x} ∩ shown) = meaning op {x} {x}) :
    Shown op left right shown := by
  have left_shown (differs : ∀ x : Int, meaning op ∅ ∅ ≠ meaning op {x} ∅) : left ⊆ shown := by
    intro x mem
    by_contra hidden
    apply differs x
    rw [← left_exact x mem, single_inter hidden, Set.empty_inter]
  have right_shown (differs : ∀ y : Int, meaning op ∅ ∅ ≠ meaning op ∅ {y}) : right ⊆ shown := by
    intro y mem
    by_contra hidden
    apply differs y
    rw [← right_exact y mem, single_inter hidden, Set.empty_inter]
  cases op with
  | plus => exact ⟨left_shown (by simp [meaning]), right_shown (by simp [meaning])⟩
  | symDiff =>
      exact ⟨left_shown (by simp [meaning, symmDiff_def]),
        right_shown (by simp [meaning, symmDiff_def])⟩
  | equal => exact ⟨left_shown (by simp [meaning]), right_shown (by simp [meaning])⟩
  | notEqual => exact ⟨left_shown (by simp [meaning]), right_shown (by simp [meaning])⟩
  | times =>
      intro x mem
      by_contra hidden
      have lost := common_exact x mem
      rw [single_inter hidden] at lost
      simp [meaning] at lost
  | minus => exact left_shown (by simp [meaning])
  | lessThanOrEqual => exact left_shown (by simp [meaning])
  | greaterThanOrEqual => exact right_shown (by simp [meaning])

end Sets

namespace SetBinary

variable {turbo : Bool} (expr : SetBinary turbo)

/-- The generated code answers as the operator on the ordinals does, for operands of these types. -/
def Exact : Prop :=
  ∀ a b, IsValue expr.left.base a → IsValue expr.right.base b →
    (expr.emit a b).decode expr.base =
      meaning expr.op (members (setBaseOffset expr.left.base) a)
        (members (setBaseOffset expr.right.base) b)

/-- The window both operands are moved to shows what the answer depends on. -/
def Fits : Prop :=
  Shown expr.op (ordinals expr.left.base) (ordinals expr.right.base) (window 256 expr.base)

/-- The generated code answers for what the window shows. -/
theorem decode_emit (a b : BitVec 256) :
    (expr.emit a b).decode expr.base =
      meaning expr.op (members (setBaseOffset expr.left.base) a ∩ window 256 expr.base)
        (members (setBaseOffset expr.right.base) b ∩ window 256 expr.base) := by
  rw [emit, decode_emitSetBinary, members_alignSet, members_alignSet]

/-- One ordinal of a base type is a value of the set type. -/
theorem isValue_single {base : OrdinalType} (accepted : checkSetBaseRange turbo base = true) {x : Int}
    (ordinal : x ∈ ordinals base) :
    members (setBaseOffset base) (single 256 (setBaseOffset base) x) = {x} ∧
      IsValue base (single 256 (setBaseOffset base) x) := by
  have only := members_single (ordinals_subset_window accepted ordinal)
  exact ⟨only, by rwa [IsValue, only, Set.singleton_subset_iff]⟩

theorem isValue_zero (base : OrdinalType) : IsValue base 0 := by
  rw [IsValue, members_zero]
  exact Set.empty_subset _

/-- An operator on sets is exact if and only if its window is wide enough. -/
theorem exact_iff_fits : expr.Exact ↔ expr.Fits := by
  constructor
  · intro exact_on
    have answers {a b : BitVec 256} (a_value : IsValue expr.left.base a)
        (b_value : IsValue expr.right.base b) :=
      (expr.decode_emit a b).symm.trans (exact_on a b a_value b_value)
    apply shown_of_meaning
    · intro x mem
      obtain ⟨only, value⟩ := isValue_single expr.left_accepted mem
      have answer := answers value (isValue_zero _)
      rwa [only, members_zero] at answer
    · intro y mem
      obtain ⟨only, value⟩ := isValue_single expr.right_accepted mem
      have answer := answers (isValue_zero _) value
      rwa [only, members_zero] at answer
    · intro x mem
      obtain ⟨left_only, left_value⟩ := isValue_single expr.left_accepted mem.1
      obtain ⟨right_only, right_value⟩ := isValue_single expr.right_accepted mem.2
      have answer := answers left_value right_value
      rwa [left_only, right_only] at answer
  · intro fits a b a_value b_value
    rw [decode_emit]
    exact meaning_of_shown fits a_value b_value

/-- The union of a `set of -100..0` and a `set of 0..200`. -/
def wideUnion : SetBinary false where
  op := .plus
  left := ⟨.subrange (.integer 64 true) (-100) 0, false⟩
  right := ⟨.subrange (.integer 64 true) 0 200, false⟩
  unified := rfl
  left_accepted := rfl
  right_accepted := rfl
  compatible := rfl

/-- The union of the empty set and `[200]` is empty. -/
theorem wideUnion_not_exact : ¬wideUnion.Exact := by
  intro exact_on
  have ordinal : (200 : Int) ∈ ordinals wideUnion.right.base := by
    simp [wideUnion, ordinals, OrdinalType.ordinalRange]
  obtain ⟨only, value⟩ := isValue_single wideUnion.right_accepted ordinal
  have answer := exact_on 0 _ (isValue_zero _) value
  have hidden : (200 : Int) ∉ window 256 wideUnion.base := by
    rw [mem_window, show wideUnion.base = -100 by decide]
    omega
  rw [decode_emit, only, members_zero, single_inter hidden, Set.empty_inter] at answer
  simp [wideUnion, meaning] at answer

end SetBinary

end Plang.CodeGen
