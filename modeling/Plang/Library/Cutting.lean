import Mathlib.Data.List.Basic

/-!
# Streams cut from the left

A stream is cut into pieces from the left.  Each piece yields something of its own, so that what the
stream yields is known from the first piece and the rest.
-/

/-- How the first piece is cut off a stream. -/
structure Cutter (α β : Type*) where
  /-- The yield of the first piece, and the items behind it. -/
  cut : α → List α → List β × List α
  /-- The piece takes the first element at least. -/
  shorter : ∀ head tail, (cut head tail).2.length ≤ tail.length

namespace Cutter

variable {α β : Type*} (cutter : Cutter α β)

/-- The yield of the first pieces. -/
def yieldFirst : Nat → List α → List β
  | 0, _ => []
  | _, [] => []
  | pieces + 1, head :: tail =>
      (cutter.cut head tail).1 ++ yieldFirst pieces (cutter.cut head tail).2

/-- The yield of the whole stream. -/
def yield (stream : List α) : List β := cutter.yieldFirst stream.length stream

@[simp] theorem yield_nil : cutter.yield [] = [] := rfl

/-- More pieces than there are elements make no difference. -/
theorem yieldFirst_eq {pieces more : Nat} {stream : List α} (enough : stream.length ≤ pieces)
    (enough_more : stream.length ≤ more) :
    cutter.yieldFirst pieces stream = cutter.yieldFirst more stream := by
  induction pieces generalizing more stream with
  | zero =>
      obtain rfl := List.eq_nil_of_length_eq_zero (Nat.le_zero.mp enough)
      cases more <;> rfl
  | succ pieces induction =>
      cases stream with
      | nil => cases more <;> rfl
      | cons head tail =>
          have shorter := cutter.shorter head tail
          cases more with
          | zero => cases enough_more
          | succ more =>
              have inside := Nat.le_trans shorter (Nat.le_of_succ_le_succ enough)
              have inside_more := Nat.le_trans shorter (Nat.le_of_succ_le_succ enough_more)
              rw [yieldFirst, yieldFirst, induction inside inside_more]

/-- The first piece, and the rest of the stream. -/
theorem yield_cons (head : α) (tail : List α) :
    cutter.yield (head :: tail) =
      (cutter.cut head tail).1 ++ cutter.yield (cutter.cut head tail).2 := by
  rw [yield, List.length_cons, yieldFirst,
    cutter.yieldFirst_eq (cutter.shorter head tail) (Nat.le_refl _), yield]

/-- Where each piece yields something, the stream does. -/
theorem yield_ne_nil (yields : ∀ head tail, (cutter.cut head tail).1 ≠ []) {stream : List α}
    (ne : stream ≠ []) : cutter.yield stream ≠ [] := by
  cases stream with
  | nil => exact absurd rfl ne
  | cons head tail =>
      rw [yield_cons]
      exact fun empty => yields head tail (List.append_eq_nil_iff.mp empty).1

end Cutter
