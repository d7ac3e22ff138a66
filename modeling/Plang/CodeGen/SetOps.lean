import Plang.Library.BitWindow
import Plang.Sema.SetTypes

/-!
# Operators on sets

A set is a mask of bits from the offset of its base type on.  Both operands of an operator are moved
to one window before their bits meet: that of the result type, or the lower one for a comparison.
What comes out is the operator on sets, as far as the window shows the operands.
-/

namespace Plang.CodeGen

open Plang.Sema BitWindow

/-- Moves a set from a window to another. -/
def alignSet (v : BitVec 256) (source target : Int) : BitVec 256 :=
  if source = target then v
  else
    let diff := if source > target then source - target else target - source
    -- no shift of the whole width is made
    if diff ≥ maxSetElements then 0
    else if source > target then v <<< diff.toNat
    else v >>> diff.toNat

/-- The result of an operator on sets: a set, or a truth value. -/
inductive SetValue where
  | set (mask : BitVec 256)
  | truth (value : Bool)
  deriving DecidableEq, Repr

def emitSetBinary (op : SetOp) (x y : BitVec 256) : SetValue :=
  match op with
  | .plus => .set (x ||| y)
  | .times => .set (x &&& y)
  | .minus => .set (x &&& ~~~y)
  | .symDiff => .set (x ^^^ y)
  | .equal => .truth (x == y)
  | .notEqual => .truth (x != y)
  | .lessThanOrEqual => .truth (x &&& y == x)
  | .greaterThanOrEqual => .truth (x &&& y == y)

/-- An operator on two sets as the checker hands it on. -/
structure SetBinary (turbo : Bool) where
  op : SetOp
  left : SetOperand
  right : SetOperand
  unified : unifyLooseSets left right = (left, right)
  left_accepted : checkSetBaseRange turbo left.base = true
  right_accepted : checkSetBaseRange turbo right.base = true
  compatible : left.base.isAssignCompatible right.base = true

namespace SetBinary

variable {turbo : Bool} (expr : SetBinary turbo)

/-- The window that both operands are moved to. -/
def base : Int :=
  if expr.op.isRelational then
    min (setBaseOffset expr.left.base) (setBaseOffset expr.right.base)
  else setBaseOffset (setResult expr.op expr.left expr.right)

/-- The code generated for the operator. -/
def emit (a b : BitVec 256) : SetValue :=
  emitSetBinary expr.op (alignSet a (setBaseOffset expr.left.base) expr.base)
    (alignSet b (setBaseOffset expr.right.base) expr.base)

end SetBinary

/-! ### What it should be -/

/-- The operators on sets of ordinals. -/
def meaning (op : SetOp) (a b : Set Int) : Set Int ⊕ Prop :=
  match op with
  | .plus => .inl (a ∪ b)
  | .times => .inl (a ∩ b)
  | .minus => .inl (a \ b)
  | .symDiff => .inl (symmDiff a b)
  | .equal => .inr (a = b)
  | .notEqual => .inr (a ≠ b)
  | .lessThanOrEqual => .inr (a ⊆ b)
  | .greaterThanOrEqual => .inr (b ⊆ a)

/-- The set or the truth value that a result stands for. -/
def SetValue.decode (origin : Int) : SetValue → Set Int ⊕ Prop
  | .set mask => .inl (members origin mask)
  | .truth value => .inr (value = true)

/-- The values of an ordinal type. -/
def ordinals (type : OrdinalType) : Set Int :=
  match type.ordinalRange with
  | some (lo, hi) => Set.Icc lo hi
  | none => Set.univ

/-- The mask is a value of the set type over this base. -/
def IsValue (base : OrdinalType) (mask : BitVec 256) : Prop :=
  members (setBaseOffset base) mask ⊆ ordinals base

/-! ### What comes out -/

theorem alignSet_eq_rebase (v : BitVec 256) (source target : Int) :
    alignSet v source target = rebase source target v := by
  rcases lt_trichotomy source target with below | rfl | above
  · rw [alignSet, if_neg (by omega)]
    simp only [if_neg (show ¬source > target by omega), maxSetElements]
    split
    · exact (rebase_eq_zero v (by omega)).symm
    · rw [rebase, if_neg (by omega)]
  · rw [alignSet, if_pos rfl, rebase_self]
  · rw [alignSet, if_neg (by omega)]
    simp only [if_pos (show source > target from above), maxSetElements]
    split
    · exact (rebase_eq_zero v (by omega)).symm
    · rw [rebase, if_pos above]

theorem members_alignSet (v : BitVec 256) (source target : Int) :
    members target (alignSet v source target) = members source v ∩ window 256 target := by
  rw [alignSet_eq_rebase, members_rebase]

theorem beq_and_iff {x y z : BitVec 256} (origin : Int) :
    ((x &&& y == z) = true) = (members origin x ∩ members origin y = members origin z) := by
  rw [beq_iff_eq, ← members_and, members_inj]

/-- The operator on masks of one window is the operator on sets. -/
theorem decode_emitSetBinary (op : SetOp) (x y : BitVec 256) (origin : Int) :
    (emitSetBinary op x y).decode origin = meaning op (members origin x) (members origin y) := by
  cases op with
  | plus => simp [emitSetBinary, SetValue.decode, meaning]
  | minus => simp only [emitSetBinary, SetValue.decode, meaning, members_and_not]
  | times => simp [emitSetBinary, SetValue.decode, meaning]
  | symDiff => simp [emitSetBinary, SetValue.decode, meaning]
  | equal => simp [emitSetBinary, SetValue.decode, meaning, members_inj]
  | notEqual => simp [emitSetBinary, SetValue.decode, meaning, members_inj]
  | lessThanOrEqual =>
      simp only [emitSetBinary, SetValue.decode, meaning, beq_and_iff origin, Set.inter_eq_left]
  | greaterThanOrEqual =>
      simp only [emitSetBinary, SetValue.decode, meaning, beq_and_iff origin, Set.inter_eq_right]

/-- The values of an accepted base are in its window. -/
theorem ordinals_subset_window {turbo : Bool} {base : OrdinalType}
    (accepted : checkSetBaseRange turbo base = true) :
    ordinals base ⊆ window 256 (setBaseOffset base) := by
  intro x ordinal
  rw [mem_window]
  cases base with
  | boolean =>
      simp only [ordinals, OrdinalType.ordinalRange, Set.mem_Icc] at ordinal
      simp only [setBaseOffset]
      omega
  | looseBoolean width => cases accepted
  | char =>
      simp only [ordinals, OrdinalType.ordinalRange, Set.mem_Icc] at ordinal
      simp only [setBaseOffset]
      omega
  | enum decl last =>
      simp only [ordinals, OrdinalType.ordinalRange, Set.mem_Icc] at ordinal
      rw [checkSetBaseRange, decide_eq_true_eq, maxSetElements] at accepted
      rw [setBaseOffset] at accepted ⊢
      omega
  | subrange host lo hi =>
      simp only [ordinals, OrdinalType.ordinalRange, Set.mem_Icc] at ordinal
      rw [checkSetBaseRange, if_neg (by omega)] at accepted
      split at accepted
      · cases accepted
      · rw [decide_eq_true_eq, maxSetElements] at accepted
        rw [setBaseOffset] at accepted ⊢
        split at accepted <;> omega
  | integer width signed =>
      cases signed with
      | true => cases accepted
      | false =>
          simp only [checkSetBaseRange, OrdinalType.ordinalRange, Bool.false_eq_true, if_false]
            at accepted
          simp only [ordinals, OrdinalType.ordinalRange] at ordinal
          split at accepted
          · cases accepted
          · rename_i lo hi range
            rw [decide_eq_true_eq, maxSetElements, setBaseOffset] at accepted
            rw [setBaseOffset]
            rw [range] at ordinal
            have ordinal : lo ≤ x ∧ x ≤ hi := ordinal
            have natural : lo = 0 := by
              split at range
              · cases range
              · obtain ⟨rfl, rfl⟩ := Prod.mk.inj (Option.some.inj range)
                rfl
            omega

end Plang.CodeGen
