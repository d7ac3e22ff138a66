import Mathlib.Data.Int.Order.Basic
import Mathlib.Tactic.Positivity

/-!
# Signed words

Sums and differences of signed machine words of 64 bits are exact as long as they do not leave the
words; a word that is not negative is cast to an unsigned one as it is.
-/

namespace SignedWords

variable {a b : Int64}

theorem toInt_add_of_fits (above : -2 ^ 63 ≤ a.toInt + b.toInt) (below : a.toInt + b.toInt < 2 ^ 63) :
    (a + b).toInt = a.toInt + b.toInt := by
  rw [Int64.toInt_add]
  exact Int.bmod_eq_of_le (by simpa using above) (by simpa using below)

theorem toInt_sub_of_fits (above : -2 ^ 63 ≤ a.toInt - b.toInt) (below : a.toInt - b.toInt < 2 ^ 63) :
    (a - b).toInt = a.toInt - b.toInt := by
  rw [Int64.toInt_sub]
  exact Int.bmod_eq_of_le (by simpa using above) (by simpa using below)

theorem toNat_toUInt64 (nonneg : 0 ≤ a.toInt) : a.toUInt64.toNat = a.toInt.toNat :=
  Int64.toNat_toUInt64_of_le (Int64.le_iff_toInt_le.mpr nonneg)

/-- A difference and one more, whatever wraps in between. -/
theorem toInt_sub_add_one (a b : Int64) :
    (a - b + 1).toInt = (a.toInt - b.toInt + 1).bmod (2 ^ 64) := by
  rw [Int64.toInt_add, Int64.toInt_sub, Int64.toInt_one, Int.bmod_add_bmod]

end SignedWords
