import Mathlib.Data.List.GetD
import Mathlib.Order.Compare
import Mathlib.Order.PiLex

/-!
# Strings with blanks behind them

A string stands for the infinite sequence that it begins and blanks go on.  Such sequences are
ordered by where they first differ.  A comparison that goes on until behind the longer string
decides that order, and strings are equal in it if and only if they differ in trailing blanks only.
-/

namespace BlankPadding

variable {α : Type*}

/-- The sequence of a string. -/
def padded (blank : α) (s : List α) : Lex (ℕ → α) := toLex fun n => s.getD n blank

section Compare

variable [LinearOrder α]

/-- Compare two sequences from a position on, for some positions. -/
def compareFrom (f g : ℕ → α) (i : ℕ) : ℕ → Ordering
  | 0 => .eq
  | k + 1 => if f i = g i then compareFrom f g (i + 1) k else if f i < g i then .lt else .gt

/-- A comparison of all the positions that two sequences can differ at is that of the sequences. -/
theorem compareFrom_compares {f g : ℕ → α} {i k : ℕ} (below : ∀ j < i, f j = g j)
    (beyond : ∀ j, i + k ≤ j → f j = g j) : (compareFrom f g i k).Compares (toLex f) (toLex g) := by
  induction k generalizing i with
  | zero =>
      refine congrArg toLex (funext fun j => ?_)
      rcases lt_or_ge j i with before | after
      · exact below j before
      · exact beyond j after
  | succ k induction =>
      rw [compareFrom]
      split
      · rename_i same
        refine induction (fun j before => ?_) fun j after => beyond j (by omega)
        rcases Nat.lt_succ_iff_lt_or_eq.mp before with earlier | rfl
        · exact below j earlier
        · exact same
      · rename_i apart
        rcases lt_or_gt_of_ne apart with less | greater
        · rw [if_pos less]
          exact ⟨i, below, less⟩
        · rw [if_neg greater.asymm]
          exact ⟨i, fun j before => (below j before).symm, greater⟩

/-- What is less than a blank makes a string less. -/
theorem padded_append_lt {blank c : α} (less : c < blank) (s rest : List α) :
    padded blank (s ++ c :: rest) < padded blank s := by
  refine ⟨s.length, fun j before => ?_, ?_⟩
  · exact List.getD_append s (c :: rest) blank j before
  · rw [padded, padded]
    simpa using less

end Compare

theorem padded_append_replicate (blank : α) (s : List α) (n : ℕ) :
    padded blank (s ++ List.replicate n blank) = padded blank s := by
  refine congrArg toLex (funext fun j => ?_)
  rcases lt_or_ge j s.length with within | behind
  · exact List.getD_append s _ blank j within
  · rw [List.getD_append_right s _ blank j behind, List.getD_eq_default s blank behind]
    rcases lt_or_ge (j - s.length) n with blanks | end_
    · exact List.getD_replicate blank blanks
    · exact List.getD_eq_default _ blank (by rw [List.length_replicate]; exact end_)

/-- Strings stand for the same sequence if and only if they differ in trailing blanks only. -/
theorem padded_eq_iff {blank : α} {s t : List α} :
    padded blank s = padded blank t ↔
      ∃ n m, s ++ List.replicate n blank = t ++ List.replicate m blank := by
  constructor
  · intro same
    refine ⟨t.length, s.length, List.ext_getElem (by simp [Nat.add_comm]) fun j left right => ?_⟩
    have at_j := congrFun (congrArg ofLex
      ((padded_append_replicate blank s t.length).trans
        (same.trans (padded_append_replicate blank t s.length).symm))) j
    change List.getD _ j blank = List.getD _ j blank at at_j
    rwa [List.getD_eq_getElem _ _ left, List.getD_eq_getElem _ _ right] at at_j
  · rintro ⟨n, m, same⟩
    rw [← padded_append_replicate blank s n, same, padded_append_replicate]

end BlankPadding
