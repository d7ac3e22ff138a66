import Mathlib.Data.Char
import Plang.Library.BlankPadding
import Plang.Runtime.EpString

/-!
# The order of strings

Strings of Extended Pascal are compared as if spaces went on behind them.  The six comparisons are
those of the lexicographic order of such sequences, whatever the lengths and capacities are.
-/

namespace Plang.Runtime

open BlankPadding

namespace EpString

variable (s : EpString)

theorem coe_length : (s.length : Int) = s.len.toInt := Int.toNat_of_nonneg s.nonneg

theorem length_le : s.length ≤ s.data.length := by
  have within := s.within
  rw [← s.coe_length] at within
  omega

@[simp] theorem length_chars : s.chars.length = s.length := by
  rw [chars, List.length_take, min_eq_left s.length_le]

/-- The infinite sequence that the string is compared as. -/
def sequence : Lex (ℕ → Char) := padded ' ' s.chars

theorem charAt_eq (i : Nat) : s.charAt i = s.chars.getD i ' ' := by
  rw [StrMem.charAt, ← s.coe_length]
  split
  · rename_i inside
    have in_chars : i < s.chars.length := by rw [length_chars]; omega
    have in_data : i < s.data.length := by have := s.length_le; omega
    rw [List.getD_eq_getElem _ _ in_chars, List.getD_eq_getElem _ _ in_data]
    simp [chars]
  · rename_i outside
    rw [List.getD_eq_default]
    rw [length_chars]
    omega

end EpString

/-- The sign of an ordering, as it is returned. -/
def sign : Ordering → Int
  | .lt => -1
  | .eq => 0
  | .gt => 1

theorem strCmpFrom_eq (a b : EpString) (i left : Nat) :
    strCmpFrom a.toStrMem b.toStrMem i left =
      sign (compareFrom (fun n => a.chars.getD n ' ') (fun n => b.chars.getD n ' ') i left) := by
  induction left generalizing i with
  | zero => rfl
  | succ left induction =>
      rw [strCmpFrom, compareFrom, a.charAt_eq, b.charAt_eq, induction]
      by_cases same : a.chars.getD i ' ' = b.chars.getD i ' '
      · rw [if_neg (not_not.mpr same), if_pos same]
      rw [if_pos same, if_neg same]
      by_cases less : a.chars.getD i ' ' < b.chars.getD i ' '
      · rw [if_pos less, if_pos less]
        rfl
      · rw [if_neg less, if_neg less]
        rfl

/-- The comparison of two strings is that of their sequences. -/
theorem strCmp_compares (a b : EpString) :
    ∃ o : Ordering, strCmp a.toStrMem b.toStrMem = sign o ∧ o.Compares a.sequence b.sequence := by
  refine ⟨_, strCmpFrom_eq a b 0 _, ?_⟩
  refine compareFrom_compares (fun j before => absurd before (Nat.not_lt_zero j)) fun j behind => ?_
  rw [← a.coe_length, ← b.coe_length] at behind
  rw [List.getD_eq_default, List.getD_eq_default]
  · rw [EpString.length_chars]
    omega
  · rw [EpString.length_chars]
    omega

section Signs

variable {o : Ordering}

theorem sign_eq_zero : sign o = 0 ↔ o = .eq := by
  cases o <;> decide

theorem sign_neg : sign o < 0 ↔ o = .lt := by
  cases o <;> decide

theorem sign_pos : sign o > 0 ↔ o = .gt := by
  cases o <;> decide

end Signs

section Relations

variable {a b : EpString}

theorem plangStrEq_iff : plangStrEq a.toStrMem b.toStrMem ↔ a.sequence = b.sequence := by
  obtain ⟨o, same, compares⟩ := strCmp_compares a b
  rw [plangStrEq, same, decide_eq_true_iff, sign_eq_zero]
  exact compares.eq_eq

theorem plangStrNe_iff : plangStrNe a.toStrMem b.toStrMem ↔ a.sequence ≠ b.sequence := by
  obtain ⟨o, same, compares⟩ := strCmp_compares a b
  rw [plangStrNe, same, decide_eq_true_iff, Ne, sign_eq_zero]
  exact not_congr compares.eq_eq

theorem plangStrLt_iff : plangStrLt a.toStrMem b.toStrMem ↔ a.sequence < b.sequence := by
  obtain ⟨o, same, compares⟩ := strCmp_compares a b
  rw [plangStrLt, same, decide_eq_true_iff, sign_neg]
  exact compares.eq_lt

theorem plangStrLe_iff : plangStrLe a.toStrMem b.toStrMem ↔ a.sequence ≤ b.sequence := by
  obtain ⟨o, same, compares⟩ := strCmp_compares a b
  rw [plangStrLe, same, decide_eq_true_iff, ← not_lt, ← gt_iff_lt, sign_pos]
  exact compares.ne_gt

theorem plangStrGt_iff : plangStrGt a.toStrMem b.toStrMem ↔ a.sequence > b.sequence := by
  obtain ⟨o, same, compares⟩ := strCmp_compares a b
  rw [plangStrGt, same, decide_eq_true_iff, sign_pos]
  exact compares.eq_gt

theorem plangStrGe_iff : plangStrGe a.toStrMem b.toStrMem ↔ a.sequence ≥ b.sequence := by
  obtain ⟨o, same, compares⟩ := strCmp_compares a b
  rw [plangStrGe, same, decide_eq_true_iff, ge_iff_le, ← not_lt, sign_neg]
  exact compares.ne_lt

end Relations

/-- The comparisons of strings are those of one order, in which spaces go on behind a string. -/
structure PaddedOrder : Prop where
  equal : ∀ a b : EpString, plangStrEq a.toStrMem b.toStrMem ↔ a.sequence = b.sequence
  unequal : ∀ a b : EpString, plangStrNe a.toStrMem b.toStrMem ↔ a.sequence ≠ b.sequence
  less : ∀ a b : EpString, plangStrLt a.toStrMem b.toStrMem ↔ a.sequence < b.sequence
  lessEqual : ∀ a b : EpString, plangStrLe a.toStrMem b.toStrMem ↔ a.sequence ≤ b.sequence
  greater : ∀ a b : EpString, plangStrGt a.toStrMem b.toStrMem ↔ a.sequence > b.sequence
  greaterEqual : ∀ a b : EpString, plangStrGe a.toStrMem b.toStrMem ↔ a.sequence ≥ b.sequence
  reflexive : ∀ a : EpString, plangStrLe a.toStrMem a.toStrMem
  transitive : ∀ a b c : EpString, plangStrLe a.toStrMem b.toStrMem →
    plangStrLe b.toStrMem c.toStrMem → plangStrLe a.toStrMem c.toStrMem
  total : ∀ a b : EpString, plangStrLe a.toStrMem b.toStrMem ∨ plangStrLe b.toStrMem a.toStrMem
  /-- Strings that are neither greater than each other differ in trailing spaces only. -/
  trailing : ∀ a b : EpString,
    (plangStrEq a.toStrMem b.toStrMem ↔
      plangStrLe a.toStrMem b.toStrMem ∧ plangStrLe b.toStrMem a.toStrMem) ∧
    (plangStrEq a.toStrMem b.toStrMem ↔
      ∃ n m, a.chars ++ List.replicate n ' ' = b.chars ++ List.replicate m ' ')
  /-- What is below the space makes a string less than what it goes on from. -/
  control : ∀ (a b : EpString) (c : Char) (rest : Text), c < ' ' → a.chars = b.chars ++ c :: rest →
    plangStrLt a.toStrMem b.toStrMem

/-- The comparisons are those of the lexicographic order of strings with spaces behind them. -/
theorem strCmp_padded : PaddedOrder where
  equal _ _ := plangStrEq_iff
  unequal _ _ := plangStrNe_iff
  less _ _ := plangStrLt_iff
  lessEqual _ _ := plangStrLe_iff
  greater _ _ := plangStrGt_iff
  greaterEqual _ _ := plangStrGe_iff
  reflexive _ := plangStrLe_iff.mpr le_rfl
  transitive _ _ _ first second :=
    plangStrLe_iff.mpr ((plangStrLe_iff.mp first).trans (plangStrLe_iff.mp second))
  total a b := by
    rw [plangStrLe_iff, plangStrLe_iff]
    exact le_total _ _
  trailing a b := by
    rw [plangStrEq_iff, plangStrLe_iff, plangStrLe_iff]
    exact ⟨le_antisymm_iff, padded_eq_iff⟩
  control a b c rest below goes_on := by
    rw [plangStrLt_iff, EpString.sequence, goes_on]
    exact padded_append_lt below b.chars rest

end Plang.Runtime
