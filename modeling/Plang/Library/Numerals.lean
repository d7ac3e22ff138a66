import Mathlib.Algebra.Order.Group.Nat
import Mathlib.Data.List.Basic

/-!
# Numerals

The value of a list of digits of some radix, read from the left on top of a value that there is
already.  It only grows, so a limit that is exceeded is crossed at some digit, and an accumulator
can tell so before it takes that digit.
-/

namespace Numerals

variable {α : Type*} (digit : α → ℕ) (radix : ℕ)

/-- The value of digits behind a start. -/
def value (start : ℕ) (ds : List α) : ℕ := ds.foldl (fun v d => v * radix + digit d) start

variable {digit radix} {start limit : ℕ} {ds es : List α} {d : α}

@[simp] theorem value_nil : value digit radix start [] = start := rfl

theorem value_cons :
    value digit radix start (d :: ds) = value digit radix (start * radix + digit d) ds := rfl

theorem value_append :
    value digit radix start (ds ++ es) = value digit radix (value digit radix start ds) es :=
  List.foldl_append

theorem value_concat :
    value digit radix start (ds ++ [d]) = value digit radix start ds * radix + digit d := by
  rw [value_append]
  rfl

theorem le_value (pos : 0 < radix) : start ≤ value digit radix start ds := by
  induction ds generalizing start with
  | nil => exact le_rfl
  | cons d ds induction =>
      calc
        start ≤ start * radix := Nat.le_mul_of_pos_right start pos
        _ ≤ start * radix + digit d := Nat.le_add_right _ _
        _ ≤ value digit radix start (d :: ds) := induction

theorem value_le_append (pos : 0 < radix) :
    value digit radix start ds ≤ value digit radix start (ds ++ es) := by
  rw [value_append]
  exact le_value pos

/-- Whether the next digit crosses a limit can be told before it is taken. -/
theorem div_lt_iff {v digit : ℕ} (pos : 0 < radix) (small : digit ≤ limit) :
    (limit - digit) / radix < v ↔ limit < v * radix + digit := by
  rw [Nat.div_lt_iff_lt_mul pos]
  omega

/-- A limit that is exceeded is crossed at some digit. -/
theorem exists_crossing (below : start ≤ limit) (exceeded : limit < value digit radix start ds) :
    ∃ front d back, ds = front ++ d :: back ∧ value digit radix start front ≤ limit ∧
      limit < value digit radix start (front ++ [d]) := by
  induction ds generalizing start with
  | nil => exact absurd exceeded (not_lt.mpr below)
  | cons d ds induction =>
      by_cases crossed : limit < start * radix + digit d
      · exact ⟨[], d, ds, rfl, below, crossed⟩
      · obtain ⟨front, next, back, rfl, kept, too_big⟩ := induction (not_lt.mp crossed) exceeded
        exact ⟨d :: front, next, back, rfl, kept, too_big⟩

/-- The value of digits behind a start, unless a digit that is next would cross the limit. -/
def guarded (digit : α → ℕ) (radix limit : ℕ) : ℕ → List α → Option ℕ
  | v, [] => some v
  | v, d :: ds =>
      if (limit - digit d) / radix < v then
        none
      else
        guarded digit radix limit (v * radix + digit d) ds

/-- An accumulator that looks ahead refuses exactly the values beyond its limit. -/
theorem guarded_eq (pos : 0 < radix) (below : start ≤ limit) (small : ∀ d ∈ ds, digit d ≤ limit) :
    guarded digit radix limit start ds =
      if value digit radix start ds ≤ limit then some (value digit radix start ds) else none := by
  induction ds generalizing start with
  | nil =>
      rw [value_nil, if_pos below]
      rfl
  | cons d ds induction =>
      have crosses := @div_lt_iff radix limit start (digit d) pos (small d List.mem_cons_self)
      rw [guarded, value_cons]
      split
      case isTrue next =>
        have beyond : limit < value digit radix (start * radix + digit d) ds :=
          (crosses.mp next).trans_le (le_value pos)
        rw [if_neg (not_le.mpr beyond)]
      case isFalse next =>
        apply induction (not_lt.mp (mt crosses.mpr next))
        exact fun e listed => small e (List.mem_cons_of_mem d listed)

end Numerals
