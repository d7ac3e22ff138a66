import Plang.CodeGen.FoldMeaning

/-!
# One operator, folded and emitted

An operator that is folded of two values, or of one, gives in 64 bits what is emitted for it, as far
as its operands are ones that it meets; and that is its value.
-/

namespace Plang.CodeGen

open Plang.Sema MachineInt

/-! ### Folded values -/

theorem fits_tdiv {x y : Int} (x_fits : Fits 64 true x) (inside : divOverflows x y = false) :
    Fits 64 true (x.tdiv y) := by
  have size : (x.tdiv y).natAbs = x.natAbs / y.natAbs := Int.natAbs_tdiv x y
  rw [fits_signed] at *
  by_cases minus : y = -1
  · have least : x ≠ -2 ^ 63 := by
      rintro rfl
      simp [divOverflows, minus] at inside
    rw [minus, Int.tdiv_neg, Int.tdiv_one]
    omega
  · have small : x.natAbs / y.natAbs ≤ x.natAbs := Nat.div_le_self _ _
    by_cases one : y = 1
    · rwa [one, Int.tdiv_one]
    · have half : x.natAbs / y.natAbs ≤ x.natAbs / 2 := by
        by_cases zero : y = 0
        · simp [zero]
        · exact Nat.div_le_div_left (by omega) (by decide)
      omega

theorem fits_emod {x y : Int} (y_fits : Fits 64 true y) (y_ne : y ≠ 0) : Fits 64 true (x % y) := by
  have nonneg := Int.emod_nonneg x y_ne
  have below := Int.emod_lt x y_ne
  rw [fits_signed] at *
  omega

theorem ConstOp.fits_fold {range : Nat × Bool} {op : ConstOp} {x y v : Int}
    (x_fits : Fits 64 true x) (y_fits : Fits 64 true y) (folded : op.fold range x y = some v) :
    Fits 64 true v := by
  cases op with
  | plus => exact (checked_eq_some.mp folded).2.1
  | minus => exact (checked_eq_some.mp folded).2.1
  | times => exact (checked_eq_some.mp folded).2.1
  | div =>
      rw [fold] at folded
      split at folded
      · rename_i inside
        exact Option.some.inj folded ▸ fits_tdiv x_fits inside.2
      · cases folded
  | mod =>
      rw [fold] at folded
      split at folded
      · rename_i inside
        rw [isoMod_eq inside.1] at folded
        exact Option.some.inj folded ▸ fits_emod y_fits inside.1
      · cases folded
  | pow =>
      rw [fold] at folded
      split at folded
      · exact (powLoop_eq_some (by decide) folded).2.1
      · cases folded

theorem OrdinalFn.fits_fold {range : Nat × Bool} {fn : OrdinalFn} {x v : Int}
    (x_fits : Fits 64 true x) (folded : fn.fold range x = some v) : Fits 64 true v := by
  cases fn with
  | abs =>
      rw [fold] at folded
      split at folded
      · exact (checked_eq_some.mp folded).2.1
      · exact Option.some.inj folded ▸ x_fits
  | sqr => exact (checked_eq_some.mp folded).2.1
  | ord => exact Option.some.inj folded ▸ x_fits
  | chr => exact Option.some.inj folded ▸ x_fits
  | odd =>
      obtain rfl := Option.some.inj folded
      split <;> decide

/-! ### Two operands -/

section Binary

variable {turbo : Bool} {range : Nat × Bool} {width : Nat} {x y v : Int}

/-- What is emitted for an operator is what is folded and no error if and only if the operands are
ones that it meets, and then that is its value. -/
def ConstOp.Decided (turbo : Bool) (width : Nat) (x y v : Int) (op : ConstOp) : Prop :=
  (op.emit turbo width (BitVec.ofInt 64 x) (BitVec.ofInt 64 y) (BitVec.ofInt 64 x)
      (BitVec.ofInt 64 y) = some (BitVec.ofInt 64 v) ∧ ¬op.IsError turbo x y ↔
    op.Meets turbo width x y) ∧
  (op.Meets turbo width x y → v = op.value turbo x y)

/-- Sums and products are emitted as they are. -/
theorem ConstOp.decided_of_checked {op : ConstOp}
    (folded : checked range (op.value turbo x y) = some v)
    (emitted : op.emit turbo width (BitVec.ofInt 64 x) (BitVec.ofInt 64 y) (BitVec.ofInt 64 x)
      (BitVec.ofInt 64 y) = some (BitVec.ofInt 64 (op.value turbo x y)))
    (total : op.IsError turbo x y → ¬Fits 64 true (op.value turbo x y))
    (meets : op.Meets turbo width x y) : op.Decided turbo width x y v := by
  obtain ⟨rfl, fits, _⟩ := checked_eq_some.mp folded
  exact ⟨iff_of_true ⟨emitted, fun error => total error fits⟩ meets, fun _ => rfl⟩

theorem decided_plus (folded : ConstOp.plus.fold range x y = some v) :
    ConstOp.plus.Decided turbo width x y v := by
  apply @ConstOp.decided_of_checked turbo range width x y v .plus folded
  · rw [ConstOp.emit, ← BitVec.ofInt_add]
    rfl
  · rintro (⟨_, outside⟩ | impossible)
    · exact outside
    · exact impossible.elim
  · trivial

theorem decided_minus (folded : ConstOp.minus.fold range x y = some v) :
    ConstOp.minus.Decided turbo width x y v := by
  apply @ConstOp.decided_of_checked turbo range width x y v .minus folded
  · rw [ConstOp.emit, BitVec.sub_eq_add_neg, ← BitVec.ofInt_neg, ← BitVec.ofInt_add]
    rfl
  · rintro (⟨_, outside⟩ | impossible)
    · exact outside
    · exact impossible.elim
  · trivial

theorem decided_times (folded : ConstOp.times.fold range x y = some v) :
    ConstOp.times.Decided turbo width x y v := by
  apply @ConstOp.decided_of_checked turbo range width x y v .times folded
  · rw [ConstOp.emit, ← BitVec.ofInt_mul]
    rfl
  · rintro (⟨_, outside⟩ | impossible)
    · exact outside
    · exact impossible.elim
  · trivial

theorem decided_div (width_le : width ≤ 64) (pos : 0 < width) (plain : turbo = false → width = 64)
    (x_fits : Fits 64 true x) (y_fits : Fits 64 true y)
    (folded : ConstOp.div.fold range x y = some v) : ConstOp.div.Decided turbo width x y v := by
  rw [ConstOp.fold] at folded
  split at folded
  · rename_i inside
    obtain rfl := Option.some.inj folded
    have emitted := emitDiv_ofInt width_le pos plain x_fits y_fits inside.2
    refine ⟨?_, fun _ => rfl⟩
    rw [ConstOp.emit, emitted, ConstOp.Meets]
    constructor
    · rintro ⟨computed, _⟩ vanishes
      rw [if_pos vanishes] at computed
      cases computed
    · intro stays
      refine ⟨if_neg stays, ?_⟩
      rintro (⟨_, outside⟩ | zero)
      · exact outside (fits_tdiv x_fits inside.2)
      · exact inside.1 zero
  · cases folded

/-- The two remainders are the same if and only if the dividend is not negative or there is none. -/
theorem tmod_eq_emod_iff (y_ne : y ≠ 0) : x.tmod y = x % y ↔ 0 ≤ x ∨ y ∣ x := by
  rw [Int.emod_eq_tmod]
  split
  · rename_i alike
    exact iff_of_true (add_zero _).symm alike
  · rename_i apart
    refine iff_of_false ?_ apart
    omega

theorem fits_tmod (y_fits : Fits 64 true y) (y_ne : y ≠ 0) :
    Fits 64 true (x.tmod y) := by
  have nonneg := fits_emod (x := x) y_fits y_ne
  have sign : x % y = x.tmod y + _ := Int.emod_eq_tmod
  have below := Int.emod_lt x y_ne
  have positive := Int.emod_nonneg x y_ne
  rw [fits_signed] at *
  split at sign <;> omega

theorem decided_mod (width_le : width ≤ 64) (plain : turbo = false → width = 64)
    (x_fits : Fits 64 true x) (y_fits : Fits 64 true y)
    (folded : ConstOp.mod.fold range x y = some v) : ConstOp.mod.Decided turbo width x y v := by
  rw [ConstOp.fold] at folded
  split at folded
  · rename_i inside
    obtain rfl := Option.some.inj folded
    have emitted := emitMod_ofInt width_le plain x_fits y_fits
    have value_fits := fits_emod (x := x) y_fits inside.1
    rw [isoMod_eq inside.1]
    cases turbo with
    | true =>
        have alike := tmod_eq_emod_iff (x := x) inside.1
        have remainder_fits := fits_tmod y_fits inside.1 (x := x)
        rw [if_pos rfl] at emitted
        simp only [ConstOp.Decided, ConstOp.emit, emitted, ConstOp.Meets, ConstOp.value, if_true]
        refine ⟨?_, fun meets => (alike.mpr meets.2).symm⟩
        constructor
        · rintro ⟨computed, _⟩
          split at computed
          · cases computed
          · rename_i stays
            have same := (ofInt_inj (by decide) remainder_fits value_fits).mp
              (Option.some.inj computed)
            exact ⟨stays, alike.mp same⟩
        · rintro ⟨stays, sign⟩
          rw [if_neg stays, alike.mpr sign]
          refine ⟨rfl, ?_⟩
          rintro (⟨dialect, _⟩ | zero)
          · cases dialect
          · exact inside.1 zero
    | false =>
        rw [if_neg Bool.false_ne_true] at emitted
        simp only [ConstOp.Decided, ConstOp.emit, emitted, ConstOp.Meets, ConstOp.value,
          Bool.false_eq_true, if_false]
        refine ⟨?_, fun _ => trivial⟩
        constructor
        · rintro ⟨computed, _⟩
          split at computed
          · cases computed
          · omega
        · intro positive
          refine ⟨if_neg (by omega), ?_⟩
          rintro (⟨_, outside⟩ | nonpos)
          · exact outside value_fits
          · simp only [Bool.false_eq_true, if_false] at nonpos
            omega
  · cases folded

theorem decided_pow (x_fits : Fits 64 true x) (y_fits : Fits 64 true y)
    (folded : ConstOp.pow.fold range x y = some v) : ConstOp.pow.Decided turbo width x y v := by
  rw [ConstOp.fold] at folded
  split at folded
  · rename_i nonneg
    obtain ⟨power, fits, found⟩ := powLoop_eq_some (by decide) folded
    rw [one_mul] at power
    refine ⟨?_, fun _ => power⟩
    rw [ConstOp.emit, toInt_ofInt_of_fits (by decide) x_fits,
      toInt_ofInt_of_fits (by decide) y_fits, ipow, if_neg (not_lt.mpr nonneg), ConstOp.Meets,
      found]
    constructor
    · rintro ⟨computed, _⟩ zeros
      rw [if_pos zeros] at computed
      cases computed
    · intro apart
      rw [if_neg apart]
      refine ⟨rfl, ?_⟩
      rintro (⟨_, outside⟩ | negative | zeros)
      · exact outside (show Fits 64 true (x ^ y.toNat) from power ▸ fits)
      · exact not_lt.mpr nonneg negative
      · exact apart zeros
  · cases folded

theorem ConstOp.decided {op : ConstOp} (width_le : width ≤ 64) (pos : 0 < width)
    (plain : turbo = false → width = 64) (x_fits : Fits 64 true x) (y_fits : Fits 64 true y)
    (folded : op.fold range x y = some v) : op.Decided turbo width x y v := by
  cases op with
  | plus => exact decided_plus folded
  | minus => exact decided_minus folded
  | times => exact decided_times folded
  | div => exact decided_div width_le pos plain x_fits y_fits folded
  | mod => exact decided_mod width_le plain x_fits y_fits folded
  | pow => exact decided_pow x_fits y_fits folded

end Binary

end Plang.CodeGen
