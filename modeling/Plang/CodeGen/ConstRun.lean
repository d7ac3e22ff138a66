import Plang.CodeGen.ConstFold

/-!
# What is generated for the operators of constant expressions

The same operators over variables.  Division and the required functions report the errors of their
dialect; sums and products wrap.  Every operand is brought to 64 bits by the signedness of its type
first, and a division by way of the type that its operands would be compared in.
-/

namespace Plang.CodeGen

open Plang.Sema MachineInt

namespace ConstExpr

variable {turbo : Bool}

def literal? : ConstExpr turbo → Option (BitVec 64)
  | .literal value => some value
  | .constant _ => none
  | .negate _ => none
  | .identity _ => none
  | .binary _ _ _ => none
  | .rel _ _ _ => none
  | .call _ _ => none
  | .walk _ _ _ => none

/-- The properties of the expression that decide how it is brought to a common type. -/
def shape (e : ConstExpr turbo) : OperandShape := ⟨e.literal?, e.llvmWidth, e.isSigned⟩

/-- The type that two operands are brought to. -/
def targetType (left right : ConstExpr turbo) : IntType := left.shape.targetType right.shape

end ConstExpr

/-- Division: a zero divisor is tested for in the width of the type, and so is the one overflow,
which Turbo answers with the dividend. -/
def emitDiv (turbo : Bool) (width : Nat) (n d : BitVec 64) : Option (BitVec 64) :=
  let nAtWidth := n.setWidth width
  let dAtWidth := d.setWidth width
  let bad := nAtWidth = BitVec.intMin width ∧ dAtWidth = -1
  if dAtWidth = 0 then none
  else if turbo then
    if width < 64 then some (n.sdiv d) else some (n.sdiv (if bad then 1 else d))
  else if bad then none
  else some (n.sdiv d)

/-- The remainder has the sign of the dividend in Turbo, and is never negative elsewhere. -/
def emitMod (turbo : Bool) (width : Nat) (n d : BitVec 64) : Option (BitVec 64) :=
  let dAtWidth := d.setWidth width
  let r := n.srem d
  if turbo then
    if dAtWidth = 0 then none else some r
  else if dAtWidth.sle 0 then none
  else some (if r.slt 0 then r + d else r)

/-- Powers of integers. -/
def ipow (base exp : Int) : Option Int :=
  if exp < 0 then none
  else if base = 0 ∧ exp = 0 then none
  else powLoop (64, true) 1 base exp.toNat

/-- What is generated for an operator of two operands, given in 64 bits as they are emitted
(`lvRaw` and `rvRaw`) and as they are brought to one type before. -/
def ConstOp.emit (turbo : Bool) (width : Nat) (lvRaw rvRaw lv rv : BitVec 64) :
    ConstOp → Option (BitVec 64)
  | .plus => some (lvRaw + rvRaw)
  | .minus => some (lvRaw - rvRaw)
  | .times => some (lvRaw * rvRaw)
  | .div => emitDiv turbo width lv rv
  | .mod => emitMod turbo width lv rv
  | .pow => (ipow lvRaw.toInt rvRaw.toInt).map (BitVec.ofInt 64)

def absInt (x : Int) : Option Int := if x = -2 ^ 63 then none else some (if x < 0 then -x else x)

def sqrInt (x : Int) : Option Int := if Fits 64 true (x * x) then some (x * x) else none

/-- A value outside of a range is an error where ranges are checked. -/
def rangeCheck (checks : Bool) (range : Option (Int × Int)) (value : BitVec 64) :
    Option (BitVec 64) :=
  match range with
  | some (lo, hi) =>
      if checks ∧ ¬(lo ≤ value.toInt ∧ value.toInt ≤ hi) then none else some value
  | none => some value

def isLooseBool : OrdinalType → Bool
  | .looseBoolean _ => true
  | .integer _ _ => false
  | .boolean => false
  | .char => false
  | .enum _ _ => false
  | .subrange _ _ _ => false

namespace ConstExpr

variable {turbo : Bool}

/-- The bits that are computed, or nothing when an error is reported. -/
def run (checks : Bool) : (e : ConstExpr turbo) → Option (BitVec e.llvmWidth)
  | .literal value => some value
  | .constant c => some (BitVec.ofInt c.width c.value)
  | .negate e => (e.run checks).map fun bits => -bits
  | .identity e => e.run checks
  | .binary op left right =>
      (left.run checks).bind fun l => (right.run checks).bind fun r =>
        let wide := (left.targetType right).width
        op.emit turbo ((binary op left right).type.storage turbo).1
          (toI64 l left.isSigned) (toI64 r right.isSigned)
          (toI64 (coerceToType l wide left.isSigned) left.isSigned)
          (toI64 (coerceToType r wide right.isSigned) right.isSigned)
  | .rel op left right =>
      (left.run checks).bind fun l => (right.run checks).bind fun r =>
        let wide := left.targetType right
        some (BitVec.ofBool (op.emit (!wide.signed) (coerceToType l wide.width left.isSigned)
          (coerceToType r wide.width right.isSigned)))
  | .call fn e =>
      (e.run checks).bind fun bits =>
        match fn with
        | .abs => (absInt (toI64 bits e.isSigned).toInt).map (BitVec.ofInt _)
        | .sqr => (sqrInt (toI64 bits e.isSigned).toInt).map (BitVec.ofInt _)
        | .ord => some (toI64 bits (isLooseBool e.type || e.isSigned))
        | .chr => (rangeCheck checks (some (0, 255)) (toI64 bits e.isSigned)).map (BitVec.setWidth 8)
        | .odd => some (BitVec.ofBool (toI64 bits e.isSigned &&& 1 != 0))
  | .walk forward e steps =>
      (e.run checks).bind fun x => (steps.run checks).bind fun k =>
        let v := toI64 x e.isSigned
        let k := toI64 k steps.isSigned
        (rangeCheck checks e.type.ordinalRange (if forward then v + k else v - k)).map
          (BitVec.setWidth _)

section Equations

variable (checks : Bool) (e left right steps : ConstExpr turbo)

theorem run_negate : (negate e).run checks = (e.run checks).map fun bits => -bits := rfl

theorem run_binary (op : ConstOp) :
    (binary op left right).run checks =
      (left.run checks).bind fun l => (right.run checks).bind fun r =>
        op.emit turbo ((binary op left right).type.storage turbo).1
          (toI64 l left.isSigned) (toI64 r right.isSigned)
          (toI64 (coerceToType l (left.targetType right).width left.isSigned) left.isSigned)
          (toI64 (coerceToType r (left.targetType right).width right.isSigned) right.isSigned) :=
  rfl

theorem run_abs :
    (call .abs e).run checks =
      (e.run checks).bind fun bits =>
        (absInt (toI64 bits e.isSigned).toInt).map (BitVec.ofInt _) := rfl

theorem run_sqr :
    (call .sqr e).run checks =
      (e.run checks).bind fun bits =>
        (sqrInt (toI64 bits e.isSigned).toInt).map (BitVec.ofInt _) := rfl

theorem run_ord :
    (call .ord e).run checks =
      (e.run checks).bind fun bits => some (toI64 bits (isLooseBool e.type || e.isSigned)) := rfl

theorem run_chr :
    (call .chr e).run checks =
      (e.run checks).bind fun bits =>
        (rangeCheck checks (some (0, 255)) (toI64 bits e.isSigned)).map (BitVec.setWidth 8) := rfl

theorem run_odd :
    (call .odd e).run checks =
      (e.run checks).bind fun bits =>
        some (BitVec.ofBool (toI64 bits e.isSigned &&& 1 != 0)) := rfl

theorem run_walk (forward : Bool) :
    (walk forward e steps).run checks =
      (e.run checks).bind fun x => (steps.run checks).bind fun k =>
        (rangeCheck checks e.type.ordinalRange
          (if forward then toI64 x e.isSigned + toI64 k steps.isSigned
            else toI64 x e.isSigned - toI64 k steps.isSigned)).map (BitVec.setWidth _) := rfl

end Equations

end ConstExpr

/-! ### Integers in, integers out -/

section Emitted

variable {x y : Int}

theorem setWidth_ofInt {width : Nat} (width_le : width ≤ 64) :
    (BitVec.ofInt 64 x).setWidth width = BitVec.ofInt width x :=
  @MachineInt.resize_ofInt 64 false x width width_le

theorem isoMod_eq (y_ne : y ≠ 0) : isoMod x y = x % y := by
  have size : (if y < 0 then -y else y) = y.natAbs := by split <;> omega
  have nonneg := Int.emod_nonneg x y_ne
  have below := Int.emod_lt x y_ne
  have sign : x % y = x.tmod y + _ := Int.emod_eq_tmod
  rw [isoMod, size]
  split at sign
  · rw [if_neg (by omega)]
    omega
  · rw [if_pos (by omega)]
    omega

/-- A division that is folded is computed, unless its divisor vanishes in the width of the type. -/
theorem emitDiv_ofInt {turbo : Bool} {width : Nat} (width_le : width ≤ 64) (pos : 0 < width)
    (plain : turbo = false → width = 64) (x_fits : Fits 64 true x) (y_fits : Fits 64 true y)
    (inside : divOverflows x y = false) :
    emitDiv turbo width (BitVec.ofInt 64 x) (BitVec.ofInt 64 y) =
      if BitVec.ofInt width y = 0 then none else some (BitVec.ofInt 64 (x.tdiv y)) := by
  have good : width = 64 → ¬(BitVec.ofInt width x = BitVec.intMin width ∧
      BitVec.ofInt width y = -1) := by
    rintro rfl ⟨least, minus⟩
    have x_eq := congrArg BitVec.toInt least
    have y_eq := congrArg BitVec.toInt minus
    rw [toInt_ofInt_of_fits (by decide) x_fits] at x_eq
    rw [toInt_ofInt_of_fits (by decide) y_fits] at y_eq
    have least_eq : (BitVec.intMin 64).toInt = -2 ^ 63 := by decide
    simp [divOverflows, x_eq, y_eq, least_eq] at inside
  have quotient := sdiv_ofInt (by decide) x_fits y_fits
  simp only [emitDiv, setWidth_ofInt width_le]
  by_cases vanishes : BitVec.ofInt width y = 0
  · rw [if_pos vanishes, if_pos vanishes]
  · rw [if_neg vanishes, if_neg vanishes, quotient]
    cases turbo with
    | true =>
        by_cases narrow : width < 64
        · rw [if_pos rfl, if_pos narrow]
        · rw [if_pos rfl, if_neg narrow, if_neg (good (by omega)), quotient]
    | false => rw [if_neg (by simp), if_neg (good (plain rfl))]

/-- The signed remainder, made nonnegative. -/
theorem adjusted_ofInt (positive : 0 < y) (y_fits : Fits 64 true y) :
    (if (BitVec.ofInt 64 (x.tmod y)).slt 0 then BitVec.ofInt 64 (x.tmod y) + BitVec.ofInt 64 y
      else BitVec.ofInt 64 (x.tmod y)) = BitVec.ofInt 64 (x % y) := by
  have sign : x % y = x.tmod y + _ := Int.emod_eq_tmod
  have nonneg := Int.emod_nonneg x positive.ne'
  have below := Int.emod_lt x positive.ne'
  have r_fits : Fits 64 true (x.tmod y) := by
    rw [fits_signed] at *
    split at sign <;> omega
  have negative : (BitVec.ofInt 64 (x.tmod y)).slt 0 = decide (x.tmod y < 0) := by
    rw [BitVec.slt, toInt_ofInt_of_fits (by decide) r_fits]
    rfl
  rw [negative]
  split at sign
  · rw [if_neg (by rw [decide_eq_true_eq]; omega), sign]
    simp
  · rw [if_pos (by rw [decide_eq_true_eq]; omega), ← BitVec.ofInt_add, sign,
      Int.natAbs_of_nonneg positive.le]

/-- A remainder that is folded is computed for the divisors that the dialect has a remainder for,
with the sign that the dialect gives it. -/
theorem emitMod_ofInt {turbo : Bool} {width : Nat} (width_le : width ≤ 64)
    (plain : turbo = false → width = 64) (x_fits : Fits 64 true x) (y_fits : Fits 64 true y) :
    emitMod turbo width (BitVec.ofInt 64 x) (BitVec.ofInt 64 y) =
      if turbo then
        if BitVec.ofInt width y = 0 then none else some (BitVec.ofInt 64 (x.tmod y))
      else if y ≤ 0 then none
      else some (BitVec.ofInt 64 (x % y)) := by
  have remainder := srem_ofInt (by decide) x_fits y_fits
  simp only [emitMod, setWidth_ofInt width_le, remainder]
  cases turbo with
  | true => rfl
  | false =>
      obtain rfl := plain rfl
      have zero_fits : Fits 64 true 0 := by decide
      have guard : (BitVec.ofInt 64 y).sle 0 = decide (y ≤ 0) :=
        sle_ofInt (by decide) y_fits zero_fits
      rw [if_neg Bool.false_ne_true, if_neg Bool.false_ne_true, guard]
      by_cases positive : 0 < y
      · rw [if_neg (by simpa using positive), if_neg (not_le.mpr positive),
          adjusted_ofInt positive y_fits]
      · rw [if_pos (by simpa using positive), if_pos (not_lt.mp positive)]

end Emitted

end Plang.CodeGen
