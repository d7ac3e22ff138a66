import Mathlib.Data.List.Basic

/-!
# Lines of a text

A line ends with one of two markers, or with the first and the second together.  What stands behind
the last marker is a line too, unless there is nothing.
-/

namespace TextLines

variable {α : Type*} [DecidableEq α] (cr lf : α)

/-- A character that is no line marker. -/
def unmarked (c : α) : Bool := c != lf && c != cr

/-- One character more in front of the first line. -/
def consHead (c : α) : List (List α) → List (List α)
  | [] => [[c]]
  | line :: more => (c :: line) :: more

/-- The lines of a text. -/
def lines : List α → List (List α)
  | [] => []
  | [c] => if unmarked cr lf c then [[c]] else [[]]
  | c :: d :: rest =>
      if unmarked cr lf c then consHead c (lines (d :: rest))
      else if c = cr ∧ d = lf then [] :: lines rest
      else [] :: lines (d :: rest)

/-- The text behind the marker that it begins with. -/
def behindMarker : List α → List α
  | [] => []
  | [_] => []
  | c :: d :: rest => if c = cr ∧ d = lf then rest else d :: rest

variable {cr lf}

theorem behindMarker_of_ne {c : α} (ne : c ≠ cr) (rest : List α) :
    behindMarker cr lf (c :: rest) = rest := by
  cases rest with
  | nil => rfl
  | cons d rest => rw [behindMarker, if_neg fun both => ne both.1]

theorem behindMarker_pair (rest : List α) : behindMarker cr lf (cr :: lf :: rest) = rest := by
  rw [behindMarker, if_pos ⟨rfl, rfl⟩]

theorem behindMarker_alone {rest : List α} (alone : rest.head? ≠ some lf) :
    behindMarker cr lf (cr :: rest) = rest := by
  cases rest with
  | nil => rfl
  | cons d rest => rw [behindMarker, if_neg fun both => alone (congrArg some both.2)]

theorem lines_cons {c : α} (not_marker : unmarked cr lf c) (rest : List α) :
    lines cr lf (c :: rest) = consHead c (lines cr lf rest) := by
  cases rest with
  | nil => simp [lines, consHead, not_marker]
  | cons d rest => rw [lines, if_pos not_marker]

theorem lines_marker {c : α} (marker : ¬unmarked cr lf c) (rest : List α) :
    lines cr lf (c :: rest) = [] :: lines cr lf (behindMarker cr lf (c :: rest)) := by
  cases rest with
  | nil => simp [lines, behindMarker, marker]
  | cons d rest =>
      rw [lines, if_neg marker, behindMarker]
      split <;> rfl

/-- The first line is what stands before the first marker, and behind that the others follow. -/
theorem lines_eq {text : List α} (some_ : text ≠ []) :
    lines cr lf text = text.takeWhile (unmarked cr lf) ::
      lines cr lf (behindMarker cr lf (text.dropWhile (unmarked cr lf))) := by
  induction text with
  | nil => exact absurd rfl some_
  | cons c rest induction =>
      by_cases kept : unmarked cr lf c
      · rw [lines_cons kept, List.takeWhile_cons_of_pos kept, List.dropWhile_cons_of_pos kept]
        cases rest with
        | nil => rfl
        | cons d rest => rw [induction (List.cons_ne_nil _ _), consHead]
      · rw [lines_marker kept, List.takeWhile_cons_of_neg kept, List.dropWhile_cons_of_neg kept]

theorem length_behindMarker_lt (c : α) (rest : List α) :
    (behindMarker cr lf (c :: rest)).length < (c :: rest).length := by
  cases rest with
  | nil => exact Nat.zero_lt_one
  | cons d rest =>
      rw [behindMarker]
      split <;> simp only [List.length_cons] <;> omega

/-- Behind the first line there is less. -/
theorem length_behindLine_lt {text : List α} (some_ : text ≠ []) :
    (behindMarker cr lf (text.dropWhile (unmarked cr lf))).length < text.length := by
  have shorter := (List.dropWhile_sublist (unmarked cr lf) (l := text)).length_le
  cases rest : text.dropWhile (unmarked cr lf) with
  | nil => exact List.length_pos_iff.mpr some_
  | cons c more =>
      rw [rest] at shorter
      exact Nat.lt_of_lt_of_le (length_behindMarker_lt c more) shorter

example : lines '\r' '\n' "ab\r\n\n\rc\r".toList = ["ab".toList, [], [], "c".toList] := by decide

end TextLines
