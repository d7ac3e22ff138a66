import Mathlib.Algebra.Ring.Int.Defs
import Mathlib.Tactic.Ring

/-!
# Row-major arrays

Arrays of several dimensions as one block: how far a component or a row is from the beginning, and
the scheme that folds subscripts together from the left.
-/

namespace RowMajor

/-- The bounds of a dimension. -/
structure Bounds where
  lo : Int
  hi : Int
  deriving DecidableEq

def Bounds.extent (bounds : Bounds) : Int := bounds.hi - bounds.lo + 1

/-- How many components there are. -/
def volume : List Bounds → Int
  | [] => 1
  | bounds :: rest => bounds.extent * volume rest

/-- How many components stand before the one, or the row, that some subscripts select. -/
def offset : List Bounds → List Int → Int
  | [], _ => 0
  | _ :: _, [] => 0
  | bounds :: rest, i :: subs => (i - bounds.lo) * volume rest + offset rest subs

/-- The subscripts are in their dimensions. -/
def Inside : List Bounds → List Int → Prop
  | bounds :: rest, i :: subs => (bounds.lo ≤ i ∧ i ≤ bounds.hi) ∧ Inside rest subs
  | [], _ :: _ => False
  | _, [] => True

/-- Each subscript scales what came before it by the width of its own dimension; so does each
dimension that has no subscript. -/
def fold : Int → List Bounds → List Int → Int
  | flat, [], _ => flat
  | flat, bounds :: rest, [] => fold (flat * bounds.extent) rest []
  | flat, bounds :: rest, i :: subs => fold (flat * bounds.extent + (i - bounds.lo)) rest subs

theorem offset_point (subs : List Int) : offset [] subs = 0 := by
  rw [offset]

theorem offset_nil (dims : List Bounds) : offset dims [] = 0 := by
  cases dims <;> rfl

theorem fold_eq (flat : Int) (dims : List Bounds) (subs : List Int) :
    fold flat dims subs = flat * volume dims + offset dims subs := by
  induction dims generalizing flat subs with
  | nil => simp only [fold, volume, offset, mul_one, add_zero]
  | cons bounds rest induction =>
      cases subs with
      | nil =>
          rw [fold, induction, volume, offset_nil, offset_nil]
          ring
      | cons i subs =>
          rw [fold, induction, volume, offset]
          ring

theorem volume_append (front back : List Bounds) :
    volume (front ++ back) = volume front * volume back := by
  induction front with
  | nil => rw [List.nil_append, volume, one_mul]
  | cons bounds rest induction => rw [List.cons_append, volume, volume, induction, mul_assoc]

/-- The first subscripts select a row of the first dimensions, and the others go on in it. -/
theorem offset_append (front back : List Bounds) (subs : List Int) :
    offset (front ++ back) subs =
      offset front subs * volume back + offset back (subs.drop front.length) := by
  induction front generalizing subs with
  | nil => rw [List.nil_append, List.length_nil, List.drop_zero, offset_point, zero_mul, zero_add]
  | cons bounds rest induction =>
      cases subs with
      | nil => rw [List.drop_nil, offset_nil, offset_nil, offset_nil, zero_mul, zero_add]
      | cons i subs =>
          rw [List.cons_append, offset, offset, induction, volume_append, List.length_cons,
            List.drop_succ_cons]
          ring

theorem inside_drop {front back : List Bounds} {subs : List Int}
    (inside : Inside (front ++ back) subs) : Inside back (subs.drop front.length) := by
  induction front generalizing subs with
  | nil => exact inside
  | cons bounds rest induction =>
      cases subs with
      | nil => cases back <;> trivial
      | cons i subs => exact induction inside.2

end RowMajor
