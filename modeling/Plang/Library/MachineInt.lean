import Mathlib.Data.Int.Order.Basic
import Mathlib.Tactic.Positivity

/-!
# Integers of some width and signedness

The integers that some bits stand for, read as signed or as unsigned.  An integer that fits is what
its bits stand for, whatever it was brought to that width from; two that fit are ordered by either
comparison of their bits as long as they are read alike, or have the same sign.
-/

namespace MachineInt

variable {w : Nat}

/-- The least integer of some bits. -/
def minOf (width : Nat) (signed : Bool) : Int := if signed then -2 ^ (width - 1) else 0

/-- The greatest integer of some bits. -/
def maxOf (width : Nat) (signed : Bool) : Int :=
  if signed then 2 ^ (width - 1) - 1 else 2 ^ width - 1

/-- The integer is one of these bits. -/
def Fits (width : Nat) (signed : Bool) (x : Int) : Prop :=
  minOf width signed ≤ x ∧ x ≤ maxOf width signed

instance (width : Nat) (signed : Bool) (x : Int) : Decidable (Fits width signed x) :=
  inferInstanceAs (Decidable (_ ∧ _))

/-- The integer that some bits stand for. -/
def denote (signed : Bool) (bits : BitVec w) : Int := if signed then bits.toInt else bits.toNat

/-- Bits brought to another width, by the signedness they are read with. -/
def resize (signed : Bool) (bits : BitVec w) (width : Nat) : BitVec width :=
  if signed then bits.signExtend width else bits.setWidth width

theorem fits_signed {x : Int} : Fits w true x ↔ -2 ^ (w - 1) ≤ x ∧ x < 2 ^ (w - 1) := by
  simp only [Fits, minOf, maxOf, if_true]
  omega

theorem fits_unsigned {x : Int} : Fits w false x ↔ 0 ≤ x ∧ x < 2 ^ w := by
  simp only [Fits, minOf, maxOf, Bool.false_eq_true, if_false]
  omega

/-- Bits brought to another width are those of what they stand for. -/
theorem resize_eq_ofInt (signed : Bool) (bits : BitVec w) (width : Nat) :
    resize signed bits width = BitVec.ofInt width (denote signed bits) := by
  cases signed with
  | true => rfl
  | false =>
      simp only [resize, denote, Bool.false_eq_true, if_false]
      rw [BitVec.ofInt_natCast, BitVec.ofNat_toNat]

/-- The unsigned reading of the bits of an integer. -/
theorem toNat_ofInt (x : Int) : ((BitVec.ofInt w x).toNat : Int) = x % 2 ^ w := by
  rw [BitVec.toNat_ofInt]
  push_cast
  exact Int.toNat_of_nonneg (Int.emod_nonneg x (by positivity))

/-- The bits of an integer that fits stand for it. -/
theorem denote_ofInt {signed : Bool} {x : Int} (pos : 0 < w) (fits : Fits w signed x) :
    denote signed (BitVec.ofInt w x) = x := by
  cases signed with
  | true =>
      rw [fits_signed] at fits
      exact BitVec.toInt_ofInt_eq_self pos fits.1 fits.2
  | false =>
      rw [fits_unsigned] at fits
      rw [denote, if_neg (by simp), toNat_ofInt, Int.emod_eq_of_lt fits.1 fits.2]

/-- Integers that fit are equal if their bits are. -/
theorem ofInt_inj {signed : Bool} {x y : Int} (pos : 0 < w) (x_fits : Fits w signed x)
    (y_fits : Fits w signed y) : BitVec.ofInt w x = BitVec.ofInt w y ↔ x = y := by
  constructor
  · intro same
    rw [← denote_ofInt pos x_fits, same, denote_ofInt pos y_fits]
  · rintro rfl
    rfl

/-- The unsigned reading of a signed integer is above its range if it is negative. -/
theorem toNat_ofInt_of_signed {x : Int} (pos : 0 < w) (fits : Fits w true x) :
    ((BitVec.ofInt w x).toNat : Int) = if x < 0 then x + 2 ^ w else x := by
  rw [fits_signed] at fits
  have half : (2 : Int) ^ w = 2 * 2 ^ (w - 1) := by
    rw [← pow_succ', Nat.sub_add_cancel pos]
  rw [toNat_ofInt]
  split
  · rename_i negative
    rw [← Int.add_emod_right, Int.emod_eq_of_lt (by omega) (by omega)]
  · exact Int.emod_eq_of_lt (by omega) (by omega)

/-- An integer that is one of some bits is one of more. -/
theorem Fits.mono {signed : Bool} {x : Int} {width : Nat} (fits : Fits w signed x)
    (wider : w ≤ width) : Fits width signed x := by
  cases signed with
  | true =>
      rw [fits_signed] at *
      have grown : (2 : Int) ^ (w - 1) ≤ 2 ^ (width - 1) :=
        pow_le_pow_right₀ (by decide) (by omega)
      omega
  | false =>
      rw [fits_unsigned] at *
      have grown : (2 : Int) ^ w ≤ 2 ^ width := pow_le_pow_right₀ (by decide) wider
      omega

/-- An unsigned integer is a signed one of more bits. -/
theorem Fits.signed {x : Int} {width : Nat} (fits : Fits w false x) (wider : w < width) :
    Fits width true x := by
  rw [fits_unsigned] at fits
  rw [fits_signed]
  have grown : (2 : Int) ^ w ≤ 2 ^ (width - 1) := pow_le_pow_right₀ (by decide) (by omega)
  omega

/-- The integer that some bits stand for fits their width. -/
theorem fits_denote (signed : Bool) (bits : BitVec w) : Fits w signed (denote signed bits) := by
  cases signed with
  | true =>
      rw [fits_signed]
      exact ⟨BitVec.le_toInt bits, BitVec.toInt_lt⟩
  | false =>
      rw [fits_unsigned]
      have bound : (bits.toNat : Int) < 2 ^ w := by exact_mod_cast bits.isLt
      exact ⟨Int.natCast_nonneg _, bound⟩

/-- Bits are those of what they stand for. -/
theorem ofInt_denote (signed : Bool) (bits : BitVec w) :
    BitVec.ofInt w (denote signed bits) = bits := by
  rw [← resize_eq_ofInt]
  cases signed <;> simp [resize]

/-- Bits that stand for the same integer are the same. -/
theorem denote_inj (signed : Bool) {left right : BitVec w} :
    denote signed left = denote signed right ↔ left = right := by
  constructor
  · intro same
    rw [← ofInt_denote signed left, same, ofInt_denote]
  · exact congrArg (denote signed)

/-- Integers have the same bits if and only if they are the same up to whole turns. -/
theorem ofInt_eq_iff {x y : Int} :
    BitVec.ofInt w x = BitVec.ofInt w y ↔ x % 2 ^ w = y % 2 ^ w := by
  rw [← BitVec.toNat_inj, ← Int.natCast_inj, toNat_ofInt, toNat_ofInt]

/-- The bits of an integer, cut, are its bits. -/
theorem resize_ofInt {signed : Bool} {x : Int} {width : Nat} (narrower : width ≤ w) :
    resize signed (BitVec.ofInt w x) width = BitVec.ofInt width x := by
  have same := ofInt_denote signed (BitVec.ofInt w x)
  rw [ofInt_eq_iff] at same
  have turns : (2 : Int) ^ width ∣ 2 ^ w := pow_dvd_pow 2 narrower
  rw [resize_eq_ofInt, ofInt_eq_iff, ← Int.emod_emod_of_dvd _ turns, same,
    Int.emod_emod_of_dvd _ turns]

/-- The bits of an integer that fits, widened, are its bits. -/
theorem resize_ofInt_of_fits {signed : Bool} {x : Int} {width : Nat} (pos : 0 < w)
    (fits : Fits w signed x) : resize signed (BitVec.ofInt w x) width = BitVec.ofInt width x := by
  rw [resize_eq_ofInt, denote_ofInt pos fits]

theorem Fits.window {signed : Bool} {x : Int} (fits : Fits w signed x) :
    -2 ^ w ≤ x ∧ x < 2 ^ w := by
  have half : (2 : Int) ^ (w - 1) ≤ 2 ^ w := pow_le_pow_right₀ (by decide) (by omega)
  cases signed with
  | true =>
      rw [fits_signed] at fits
      omega
  | false =>
      rw [fits_unsigned] at fits
      omega

/-- Two integers of some bits lie within a turn. -/
theorem Fits.within {signed : Bool} {x y : Int} (pos : 0 < w) (x_fits : Fits w signed x)
    (y_fits : Fits w signed y) : x - y < 2 ^ w ∧ y - x < 2 ^ w := by
  cases signed with
  | true =>
      have half : (2 : Int) ^ w = 2 * 2 ^ (w - 1) := by rw [← pow_succ', Nat.sub_add_cancel pos]
      rw [fits_signed] at x_fits y_fits
      omega
  | false =>
      rw [fits_unsigned] at x_fits y_fits
      omega

/-- The bits of an integer that fits one way stand for it up to one turn, however they are read. -/
theorem denote_ofInt_turn (signed : Bool) {other : Bool} {x : Int} (fits : Fits w other x) :
    denote signed (BitVec.ofInt w x) = x ∨ denote signed (BitVec.ofInt w x) = x - 2 ^ w ∨
      denote signed (BitVec.ofInt w x) = x + 2 ^ w := by
  have same := ofInt_denote signed (BitVec.ofInt w x)
  have read_fits := fits_denote signed (BitVec.ofInt w x)
  have turn : (0 : Int) ≤ 2 ^ w := by positivity
  have bounds := fits.window
  have read_bounds := read_fits.window
  rw [ofInt_eq_iff, Int.emod_eq_emod_iff_emod_sub_eq_zero, ← Int.dvd_iff_emod_eq_zero] at same
  obtain ⟨turns, distance⟩ := same
  have below : turns < 2 := by
    apply lt_of_mul_lt_mul_left _ turn
    omega
  have above : -2 < turns := by
    apply lt_of_mul_lt_mul_left _ turn
    omega
  have few : turns = -1 ∨ turns = 0 ∨ turns = 1 := by omega
  rcases few with rfl | rfl | rfl <;> omega

/-- Bits stand for an integer if and only if they are its bits, and it fits. -/
theorem denote_eq_iff {signed : Bool} {bits : BitVec w} {x : Int} (pos : 0 < w) :
    denote signed bits = x ↔ bits = BitVec.ofInt w x ∧ Fits w signed x := by
  constructor
  · rintro rfl
    exact ⟨(ofInt_denote signed bits).symm, fits_denote signed bits⟩
  · rintro ⟨rfl, fits⟩
    exact denote_ofInt pos fits

theorem toInt_ofInt_of_fits {x : Int} (pos : 0 < w) (fits : Fits w true x) :
    (BitVec.ofInt w x).toInt = x := denote_ofInt pos fits

/-- The signed quotient of the bits of two integers. -/
theorem sdiv_ofInt {x y : Int} (pos : 0 < w) (x_fits : Fits w true x) (y_fits : Fits w true y) :
    (BitVec.ofInt w x).sdiv (BitVec.ofInt w y) = BitVec.ofInt w (x.tdiv y) := by
  apply BitVec.eq_of_toInt_eq
  rw [BitVec.toInt_sdiv, toInt_ofInt_of_fits pos x_fits, toInt_ofInt_of_fits pos y_fits,
    BitVec.toInt_ofInt]

/-- The signed remainder of the bits of two integers. -/
theorem srem_ofInt {x y : Int} (pos : 0 < w) (x_fits : Fits w true x) (y_fits : Fits w true y) :
    (BitVec.ofInt w x).srem (BitVec.ofInt w y) = BitVec.ofInt w (x.tmod y) := by
  rw [← ofInt_denote true ((BitVec.ofInt w x).srem _)]
  apply congrArg (BitVec.ofInt w)
  rw [denote, if_pos rfl, BitVec.toInt_srem, toInt_ofInt_of_fits pos x_fits,
    toInt_ofInt_of_fits pos y_fits]

section Order

variable {x y : Int}

theorem ule_eq_decide_int (left right : BitVec w) :
    left.ule right = decide ((left.toNat : Int) ≤ right.toNat) := by
  simp [BitVec.ule_eq_decide]

/-- The signed comparison of integers that fit the signed range. -/
theorem sle_ofInt (pos : 0 < w) (x_fits : Fits w true x) (y_fits : Fits w true y) :
    (BitVec.ofInt w x).sle (BitVec.ofInt w y) = decide (x ≤ y) := by
  have x_same : (BitVec.ofInt w x).toInt = x := denote_ofInt pos x_fits
  have y_same : (BitVec.ofInt w y).toInt = y := denote_ofInt pos y_fits
  rw [BitVec.sle_eq_decide, x_same, y_same]

/-- The unsigned comparison of integers that fit the unsigned range. -/
theorem ule_ofInt (pos : 0 < w) (x_fits : Fits w false x) (y_fits : Fits w false y) :
    (BitVec.ofInt w x).ule (BitVec.ofInt w y) = decide (x ≤ y) := by
  have x_same : ((BitVec.ofInt w x).toNat : Int) = x := denote_ofInt pos x_fits
  have y_same : ((BitVec.ofInt w y).toNat : Int) = y := denote_ofInt pos y_fits
  rw [ule_eq_decide_int, x_same, y_same]

/-- The unsigned comparison of integers that fit the signed range: right for two of one sign, and
wrong for any others. -/
theorem ule_ofInt_of_signed (pos : 0 < w) (x_fits : Fits w true x) (y_fits : Fits w true y) :
    (BitVec.ofInt w x).ule (BitVec.ofInt w y) =
      if x < 0 ↔ y < 0 then decide (x ≤ y) else !decide (x ≤ y) := by
  have x_read := toNat_ofInt_of_signed pos x_fits
  have y_read := toNat_ofInt_of_signed pos y_fits
  have bounds := fits_signed.mp x_fits
  have others := fits_signed.mp y_fits
  have half : (2 : Int) ^ w = 2 * 2 ^ (w - 1) := by
    rw [← pow_succ', Nat.sub_add_cancel pos]
  rw [half] at x_read y_read
  rw [ule_eq_decide_int, x_read, y_read]
  rw [Bool.eq_iff_iff]
  by_cases x_neg : x < 0 <;> by_cases y_neg : y < 0 <;> simp [x_neg, y_neg]
  · omega
  · omega

/-- Two integers, each read up to one turn, are read in their order if and only if both are read as
they are, or neither is: as long as each two lie within a turn. -/
theorem order_iff_alike {turn readX readY : Int}
    (x_read : readX = x ∨ readX = x - turn ∨ readX = x + turn)
    (y_read : readY = y ∨ readY = y - turn ∨ readY = y + turn)
    (within : x - y < turn ∧ y - x < turn)
    (read_within : readX - readY < turn ∧ readY - readX < turn) :
    ((readX < readY ↔ x < y) ↔ (readX = x ↔ readY = y)) ∧
      ((readX ≤ readY ↔ x ≤ y) ↔ (readX = x ↔ readY = y)) ∧ (readX = readY ↔ x = y) := by
  omega

end Order

end MachineInt
