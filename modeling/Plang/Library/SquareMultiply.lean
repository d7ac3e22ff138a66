import Mathlib.Algebra.Order.Ring.Abs
import Mathlib.Tactic.Linarith
import Mathlib.Tactic.Ring

/-!
# Square and multiply

A power found by squaring, where a product outside of some span of integers is refused.  The last
square is not taken.  Such a span reaches no further below zero than one more than above, and
then nothing is refused too early: a power is found if and only if it is in the span.
-/

namespace SquareMultiply

/-- The integers between two bounds, as machine integers have them. -/
structure Span where
  lo : Int
  hi : Int
  lo_nonpos : lo ≤ 0
  hi_pos : 1 ≤ hi
  reach : -hi - 1 ≤ lo

namespace Span

variable (span : Span) {x k : Int}

def Has (x : Int) : Prop := span.lo ≤ x ∧ x ≤ span.hi

variable {span}

theorem has_zero : span.Has 0 := ⟨span.lo_nonpos, by linarith [span.hi_pos]⟩

theorem has_one : span.Has 1 := ⟨by linarith [span.lo_nonpos], span.hi_pos⟩

/-- What is outside is not brought back by a factor. -/
theorem not_has_mul (outside : ¬span.Has x) (pos : 1 ≤ k) : ¬span.Has (x * k) := by
  rintro ⟨above, below⟩
  rcases le_total 0 x with nonneg | nonpos
  · refine outside ⟨span.lo_nonpos.trans nonneg, le_trans ?_ below⟩
    exact le_mul_of_one_le_right nonneg pos
  · have shrunk : x * k ≤ x := by nlinarith
    exact outside ⟨above.trans shrunk, by linarith [span.hi_pos]⟩

/-- A square is outside only by being too great. -/
theorem hi_lt_of_not_has_square (outside : ¬span.Has (x * x)) : span.hi < x * x := by
  by_contra small
  exact outside ⟨span.lo_nonpos.trans (mul_self_nonneg x), not_lt.mp small⟩

end Span

/-- The loop: `mul` may refuse a product. -/
def power (mul : Int → Int → Option Int) (result base : Int) (exp : Nat) : Option Int :=
  if exp = 0 then some result
  else
    (if exp % 2 = 1 then mul result base else some result).bind fun result =>
      if exp / 2 = 0 then some result
      else (mul base base).bind fun base => power mul result base (exp / 2)
termination_by exp

/-- A product is given if and only if it is in the span. -/
def Exact (span : Span) (mul : Int → Int → Option Int) : Prop :=
  ∀ x y z, mul x y = some z ↔ x * y = z ∧ span.Has z

theorem Exact.eq_none {span : Span} {mul : Int → Int → Option Int} (exact : Exact span mul)
    {x y : Int} (outside : ¬span.Has (x * y)) : mul x y = none := by
  by_contra given
  obtain ⟨z, found⟩ := Option.ne_none_iff_exists'.mp given
  obtain ⟨rfl, inside⟩ := (exact x y z).mp found
  exact outside inside

/-- The invariant of the loop: a base that grows comes with a result that is one, or greater than
one without its sign. -/
def Ahead (result base : Int) : Prop := |base| ≤ 1 ∨ result = 1 ∨ 2 ≤ |result|

theorem ahead_one (base : Int) : Ahead 1 base := .inr (.inl rfl)

theorem Ahead.mul {result base : Int} (ahead : Ahead result base) : Ahead (result * base) base := by
  by_cases still : |base| ≤ 1
  · exact .inl still
  have grows : 2 ≤ |base| := by omega
  refine .inr (.inr ?_)
  rw [abs_mul]
  rcases ahead with short | rfl | far
  · exact absurd short still
  · rw [abs_one, one_mul]
    exact grows
  · nlinarith

theorem Ahead.square {result base : Int} (ahead : Ahead result base) :
    Ahead result (base * base) := by
  rcases ahead with short | one | far
  · left
    rw [abs_mul]
    exact mul_le_one₀ short (abs_nonneg base) short
  · exact .inr (.inl one)
  · exact .inr (.inr far)

section Squares

variable {span : Span} {result base : Int} {exp : Nat}

theorem one_le_square (base_ne : base ≠ 0) : 1 ≤ base * base :=
  Int.add_one_le_iff.mpr (mul_self_pos.mpr base_ne)

/-- A square that is outside takes every later product with it. -/
theorem not_has_of_square (ahead : Ahead result base) (outside : ¬span.Has (base * base))
    (pos : exp ≠ 0) : ¬span.Has (result * (base * base) ^ exp) := by
  have great := span.hi_lt_of_not_has_square outside
  have hi_pos := span.hi_pos
  have reach := span.reach
  have grown : base * base ≤ (base * base) ^ exp := le_self_pow₀ (by linarith) pos
  rintro ⟨above, below⟩
  rcases ahead with short | rfl | far
  · have small := mul_le_one₀ short (abs_nonneg base) short
    rw [abs_mul_abs_self] at small
    linarith
  · linarith
  · rcases le_abs'.mp far with negative | positive
    · nlinarith
    · nlinarith

/-- One more turn of the loop is a square of the base and half of the exponent. -/
theorem turn (result base : Int) (exp : Nat) :
    result * base ^ exp = result * base ^ (exp % 2) * (base * base) ^ (exp / 2) := by
  rw [← pow_two, ← pow_mul, mul_assoc, ← pow_add, Nat.mod_add_div]

end Squares

/-- The loop finds what the power is, and refuses only what is outside. -/
theorem power_eq_some_iff {span : Span} {mul : Int → Int → Option Int} (exact : Exact span mul)
    {result base v : Int} {exp : Nat} (ahead : Ahead result base) (inside : span.Has result) :
    power mul result base exp = some v ↔ result * base ^ exp = v ∧ span.Has v := by
  induction exp using Nat.strong_induction_on generalizing result base with
  | _ exp induction =>
      rw [power]
      by_cases done : exp = 0
      · rw [if_pos done, done, pow_zero, mul_one, Option.some_inj]
        constructor
        · rintro rfl
          exact ⟨rfl, inside⟩
        · exact And.left
      rw [if_neg done, turn]
      -- the product of this turn, whether there is one to take or not
      have product : (if exp % 2 = 1 then mul result base else some result) =
            some (result * base ^ (exp % 2)) ∧ span.Has (result * base ^ (exp % 2)) ∧
          Ahead (result * base ^ (exp % 2)) base ∨
          (if exp % 2 = 1 then mul result base else some result) = none ∧
          ¬span.Has (result * base ^ (exp % 2)) ∧ base ≠ 0 := by
        by_cases odd : exp % 2 = 1
        · rw [if_pos odd, odd, pow_one]
          by_cases kept : span.Has (result * base)
          · exact .inl ⟨(exact _ _ _).mpr ⟨rfl, kept⟩, kept, ahead.mul⟩
          · refine .inr ⟨exact.eq_none kept, kept, ?_⟩
            rintro rfl
            rw [mul_zero] at kept
            exact kept span.has_zero
        · rw [if_neg odd, Nat.mod_two_ne_one.mp odd, pow_zero, mul_one]
          exact .inl ⟨rfl, inside, ahead⟩
      rcases product with ⟨found, kept, ahead⟩ | ⟨refused, outside, base_ne⟩
      · rw [found, Option.bind_some]
        by_cases last : exp / 2 = 0
        · rw [if_pos last, last, pow_zero, mul_one, Option.some_inj]
          constructor
          · rintro rfl
            exact ⟨rfl, kept⟩
          · exact And.left
        rw [if_neg last]
        by_cases squared : span.Has (base * base)
        · rw [(exact _ _ _).mpr ⟨rfl, squared⟩, Option.bind_some]
          exact induction (exp / 2) (by omega) ahead.square kept
        · rw [exact.eq_none squared, Option.bind_none]
          constructor
          · intro found
            cases found
          · rintro ⟨rfl, fits⟩
            exact absurd fits (not_has_of_square ahead squared last)
      · rw [refused, Option.bind_none]
        constructor
        · intro found
          cases found
        · rintro ⟨rfl, fits⟩
          exact absurd fits
            (span.not_has_mul outside (one_le_pow₀ (one_le_square base_ne)))

end SquareMultiply
