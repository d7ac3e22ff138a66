import Plang.CodeGen.FoldOperators
import Plang.CodeGen.Promotion

/-!
# Folded values and computed ones

A folded expression, and every expression in it, is computed to its folded value if and only if each
of its operators is folded within the bits that it is emitted in and as the dialect computes it.
-/

namespace Plang.CodeGen

open Plang.Sema MachineInt

namespace ConstExpr

variable {turbo checks : Bool}

/-- A folded value fits in 64 bits. -/
theorem fits_of_constBound {e : ConstExpr turbo} {v : Int} (folded : e.constBound = some v) :
    Fits 64 true v := by
  induction e generalizing v with
  | literal value =>
      rw [constBound] at folded
      split at folded
      · cases folded
      · rename_i small
        obtain rfl := Option.some.inj folded
        rw [fits_signed]
        have bound := BitVec.toNat_lt_of_msb_false (Bool.eq_false_of_not_eq_true small)
        omega
  | constant c => exact Option.some.inj folded ▸ c.int64
  | negate e =>
      obtain ⟨x, _, folded⟩ := Option.bind_eq_some_iff.mp folded
      exact (checked_eq_some.mp folded).2.1
  | identity e induction => exact induction folded
  | binary op left right left_induction right_induction =>
      obtain ⟨x, left_folded, folded⟩ := Option.bind_eq_some_iff.mp folded
      obtain ⟨y, right_folded, folded⟩ := Option.bind_eq_some_iff.mp folded
      exact ConstOp.fits_fold (left_induction left_folded) (right_induction right_folded) folded
  | rel op left right => cases folded
  | call fn e induction =>
      obtain ⟨x, operand, folded⟩ := Option.bind_eq_some_iff.mp folded
      exact OrdinalFn.fits_fold (induction operand) folded
  | walk forward e steps =>
      obtain ⟨x, _, folded⟩ := Option.bind_eq_some_iff.mp folded
      obtain ⟨k, _, folded⟩ := Option.bind_eq_some_iff.mp folded
      exact (checked_eq_some.mp folded).2.1

/-- The folded value is the value of the expression, is computed, and is no error. -/
def Settled (checks : Bool) (e : ConstExpr turbo) : Prop :=
  ∀ v, e.constBound = some v → v = e.value ∧ e.Computes checks v ∧ ¬e.Erroneous checks

/-- A value is computed if and only if its bits are, and they stand for it. -/
theorem computes_iff {e : ConstExpr turbo} {v : Int} :
    e.Computes checks v ↔
      e.run checks = some (BitVec.ofInt e.llvmWidth v) ∧ Fits e.llvmWidth e.isSigned v := by
  constructor
  · rintro ⟨bits, computed, stands⟩
    obtain ⟨rfl, fits⟩ := (denote_eq_iff e.llvmWidth_pos).mp stands
    exact ⟨computed, fits⟩
  · rintro ⟨computed, fits⟩
    exact ⟨_, computed, denote_ofInt e.llvmWidth_pos fits⟩

/-- An operand that is computed to a value of 64 bits without an error.  A literal is the value. -/
structure Computed (checks : Bool) (e : ConstExpr turbo) (v : Int) : Prop where
  literal : e.literal? ≠ none → e.constBound = some v
  int64 : Fits 64 true v
  computed : e.run checks = some (BitVec.ofInt e.llvmWidth v)
  held : Fits e.llvmWidth e.isSigned v
  sound : ¬e.Erroneous checks

/-- An operand that the checker has a value for. -/
structure Operand (checks : Bool) (e : ConstExpr turbo) (v : Int) : Prop
    extends e.Computed checks v where
  folded : e.constBound = some v
  value : v = e.value

theorem Settled.operand {e : ConstExpr turbo} (settled : e.Settled checks) {v : Int}
    (folded : e.constBound = some v) : e.Operand checks v := by
  obtain ⟨value, computes, sound⟩ := settled v folded
  obtain ⟨computed, held⟩ := computes_iff.mp computes
  exact ⟨⟨fun _ => folded, fits_of_constBound folded, computed, held, sound⟩, folded, value⟩

theorem Computed.toI64 {e : ConstExpr turbo} {v : Int} (operand : e.Computed checks v) :
    toI64 (BitVec.ofInt e.llvmWidth v) e.isSigned = BitVec.ofInt 64 v :=
  resize_ofInt_of_fits e.llvmWidth_pos operand.held

theorem literal?_eq_some {e : ConstExpr turbo} {v : BitVec 64} (is_literal : e.literal? = some v) :
    e = .literal v := by
  cases e with
  | literal value => exact congrArg ConstExpr.literal (Option.some.inj is_literal)
  | constant c => cases is_literal
  | negate e => cases is_literal
  | identity e => cases is_literal
  | binary op left right => cases is_literal
  | rel op left right => cases is_literal
  | call fn e => cases is_literal
  | walk forward e steps => cases is_literal

/-- A literal is a signed integer of the type that it is brought to with what stands beside it, when
it takes its width. -/
theorem fits_target_of_literal {w : Nat} {signed : Bool} {x : Int}
    (half : 0 < w ∧ (w ≤ 32 ∨ w = 64)) (fits : Fits w signed x)
    (int64 : Fits 64 true x) :
    Fits (IntType.target ⟨w, true⟩ ⟨w, signed⟩).width true x := by
  cases signed with
  | true =>
      rw [IntType.target, if_pos rfl]
      exact fits.mono (le_max_left _ _)
  | false =>
      rw [IntType.target, if_neg (by simp), if_pos rfl, IntType.mixed, if_neg (lt_irrefl w)]
      split
      · exact fits.signed (by simp only; omega)
      · rename_i wide
        have wide : ¬w * 2 ≤ 64 := wide
        have full : w = 64 := half.2.resolve_left (by omega)
        exact full ▸ int64

theorem fits_of_literalFitsWidth {w : Nat} {unsigned : Bool} {x : Int}
    (half : 0 < w ∧ (w ≤ 32 ∨ w = 64)) (int64 : Fits 64 true x) (nonneg : 0 ≤ x)
    (fits : literalFitsWidth x w unsigned = true) : Fits w (!unsigned) x := by
  rw [literalFitsWidth] at fits
  rw [fits_signed] at int64
  split at fits
  · obtain rfl : w = 64 := half.2.resolve_left (by omega)
    cases unsigned with
    | true => exact fits_unsigned.mpr (by omega)
    | false => exact fits_signed.mpr int64
  · cases unsigned with
    | true => exact fits_unsigned.mpr (by simpa using fits)
    | false =>
        rw [if_neg Bool.false_ne_true, decide_eq_true_eq] at fits
        exact fits_signed.mpr (by omega)

theorem widthBeside_pos (e other : ConstExpr turbo) : 0 < e.shape.widthBeside other.shape := by
  rw [OperandShape.widthBeside]
  split
  · split
    · exact other.llvmWidth_pos
    · exact e.llvmWidth_pos
  · exact e.llvmWidth_pos

/-- A literal that is folded is a signed integer. -/
theorem literal_of_constBound {value : BitVec 64} {x : Int}
    (folded : (literal value : ConstExpr turbo).constBound = some x) :
    (literal value : ConstExpr turbo).isSigned = true ∧ x = value.toInt ∧ 0 ≤ x := by
  rw [constBound] at folded
  split at folded
  · cases folded
  · rename_i large
    have small : value.msb = false := Bool.eq_false_of_not_eq_true large
    obtain rfl := Option.some.inj folded
    refine ⟨?_, ?_, Int.natCast_nonneg _⟩
    · rw [isSigned, type, if_neg large]
      rfl
    · rw [BitVec.toInt_eq_msb_cond, small]
      rfl

/-- The type that two operands are brought to has room for an operand that is computed. -/
theorem Computed.fits_target {left right : ConstExpr turbo} {x : Int}
    (operand : left.Computed checks x) :
    Fits (left.targetType right).width left.isSigned x := by
  have wider : left.shape.widthBeside right.shape ≤ (left.targetType right).width :=
    left.shape.le_width_targetType right.shape
  by_cases other : left.literal? = none ∨ right.literal? ≠ none
  · have own : left.shape.widthBeside right.shape = left.llvmWidth :=
      OperandShape.widthBeside_of_not_literal other
    rw [own] at wider
    exact operand.held.mono wider
  · rw [not_or, not_not] at other
    obtain ⟨value, is_literal⟩ := Option.ne_none_iff_exists'.mp other.1
    obtain rfl := literal?_eq_some is_literal
    obtain ⟨signed, same, nonneg⟩ := literal_of_constBound (operand.literal other.1)
    have int64 := operand.int64
    have plain : right.shape.literal? = none := other.2
    have own : (ConstExpr.literal value : ConstExpr turbo).shape.widthBeside right.shape =
        if literalFitsWidth value.toInt right.llvmWidth (!right.isSigned) then right.llvmWidth
        else 64 := OperandShape.widthBeside_literal plain
    rw [own] at wider
    rw [signed]
    by_cases taken : literalFitsWidth value.toInt right.llvmWidth (!right.isSigned) = true
    · have fits := fits_of_literalFitsWidth (llvm_cases right.llvmWidth_mem) int64 nonneg
        (same ▸ taken)
      rw [Bool.not_not] at fits
      have beside : right.shape.widthBeside (ConstExpr.literal value : ConstExpr turbo).shape =
          right.llvmWidth := OperandShape.widthBeside_of_not_literal (.inl other.2)
      have type : (ConstExpr.literal value : ConstExpr turbo).targetType right =
          .target ⟨right.llvmWidth, true⟩ ⟨right.llvmWidth, right.isSigned⟩ := by
        rw [targetType, OperandShape.targetType, own, beside, if_pos taken]
        exact congrArg (fun signed => IntType.target ⟨right.llvmWidth, signed⟩ _) signed
      rw [type]
      exact fits_target_of_literal (llvm_cases right.llvmWidth_mem) fits int64
    · rw [if_neg taken] at wider
      exact int64.mono wider

/-- An operand is brought to 64 bits by way of the type that two operands are brought to. -/
theorem Computed.brought {left right : ConstExpr turbo} {x : Int}
    (operand : left.Computed checks x) :
    CodeGen.toI64 (coerceToType (BitVec.ofInt left.llvmWidth x) (left.targetType right).width
      left.isSigned) left.isSigned = BitVec.ofInt 64 x := by
  have pos : 0 < (left.targetType right).width :=
    (left.widthBeside_pos right).trans_le (left.shape.le_width_targetType right.shape)
  rw [coerceToType, resize_ofInt_of_fits left.llvmWidth_pos operand.held, CodeGen.toI64,
    resize_ofInt_of_fits pos operand.fits_target]

/-- An operator is computed of the values of its operands, in 64 bits. -/
theorem run_binary_of_computed {op : ConstOp} {left right : ConstExpr turbo} {x y : Int}
    (left_computed : left.Computed checks x) (right_computed : right.Computed checks y) :
    (binary op left right).run checks =
      op.emit turbo ((binary op left right).type.storage turbo).1 (BitVec.ofInt 64 x)
        (BitVec.ofInt 64 y) (BitVec.ofInt 64 x) (BitVec.ofInt 64 y) := by
  have right_brought : CodeGen.toI64 (coerceToType (BitVec.ofInt right.llvmWidth y)
      (right.targetType left).width right.isSigned) right.isSigned = BitVec.ofInt 64 y :=
    right_computed.brought
  have comm : right.targetType left = left.targetType right :=
    right.shape.targetType_comm left.shape
  rw [comm] at right_brought
  rw [run_binary, left_computed.computed, right_computed.computed]
  change op.emit turbo _ (CodeGen.toI64 _ _) (CodeGen.toI64 _ _) (CodeGen.toI64 _ _)
    (CodeGen.toI64 _ _) = _
  rw [left_computed.toI64, right_computed.toI64, left_computed.brought, right_brought]

theorem run_negate_of_computed {e : ConstExpr turbo} {x : Int} (computed : e.Computed checks x) :
    (negate e).run checks = some (BitVec.ofInt e.llvmWidth (-x)) := by
  rw [run_negate, computed.computed, BitVec.ofInt_neg]
  rfl

/-! ### One node -/

/-- The folded value is computed and no error if and only if the operator meets its operands, and
then it is the value of the expression. -/
def Decided (checks : Bool) (e : ConstExpr turbo) : Prop :=
  ∀ v, e.constBound = some v →
    (e.Computes checks v ∧ ¬e.Erroneous checks ↔ e.Meets checks) ∧ (e.Meets checks → v = e.value)

theorem Decided.settled {folder : Folder} {e : ConstExpr turbo} (decided : e.Decided checks)
    (sound : e.FoldsSoundly checks folder) : e.Settled checks := by
  intro v folded
  have meets : e.Meets checks := sound.found (folded ▸ rfl)
  exact ⟨(decided v folded).2 meets, (decided v folded).1.mpr meets⟩

/-- Where the checker has a value it decides; elsewhere the folder does. -/
theorem Decided.agrees_iff {folder : Folder} {e : ConstExpr turbo} (decided : e.Decided checks)
    (refolded : e.constBound = none → (e.Agrees checks folder ↔ e.RefoldsSoundly folder)) :
    e.Agrees checks folder ↔ e.FoldsSoundly checks folder := by
  rcases found : e.constBound with _ | v
  · rw [refolded found]
    constructor
    · exact fun sound => ⟨fun value => absurd value (by rw [found]; nofun), fun _ => sound⟩
    · exact fun sound => sound.refolded found
  · have folded := folder.fold_of_constBound found
    have only : e.Agrees checks folder ↔ e.Computes checks v ∧ ¬e.Erroneous checks := by
      constructor
      · exact fun agrees => agrees v folded
      · intro computed other same
        obtain rfl := Option.some.inj (folded.symm.trans same)
        exact computed
    rw [only, (decided v found).1]
    constructor
    · exact fun meets => ⟨fun _ => meets, fun unfound => nomatch found.symm.trans unfound⟩
    · exact fun sound => sound.found (found ▸ rfl)

theorem decided_literal (value : BitVec 64) : (literal value : ConstExpr turbo).Decided checks := by
  intro v folded
  obtain ⟨signed, same, nonneg⟩ := literal_of_constBound folded
  have held := fits_of_constBound folded
  refine ⟨iff_of_true ⟨computes_iff.mpr ⟨?_, ?_⟩, id⟩ trivial, fun _ => ?_⟩
  · have bits : BitVec.ofInt 64 v = value := by rw [same, BitVec.ofInt_toInt]
    exact congrArg some bits.symm
  · rw [signed]
    exact held
  · rw [constBound] at folded
    split at folded
    · cases folded
    · exact (Option.some.inj folded).symm

theorem decided_constant (c : Constant turbo) :
    (constant c : ConstExpr turbo).Decided checks := by
  intro v folded
  obtain rfl := Option.some.inj folded
  exact ⟨iff_of_true ⟨computes_iff.mpr ⟨rfl, c.held⟩, id⟩ trivial, fun _ => rfl⟩

theorem decided_negate {e : ConstExpr turbo} (settled : e.Settled checks) :
    (negate e).Decided checks := by
  intro v folded
  obtain ⟨x, found, folded⟩ := Option.bind_eq_some_iff.mp folded
  obtain ⟨rfl, fits, _⟩ := checked_eq_some.mp folded
  have operand := settled.operand found
  have computed := run_negate_of_computed operand.toComputed
  rw [computes_iff, meets_negate, value_negate, ← operand.value]
  refine ⟨⟨fun meets => meets.1.2, fun meets => ⟨⟨computed, meets⟩, ?_⟩⟩, fun _ => rfl⟩
  rw [erroneous_negate_iff, ← operand.value]
  rintro (error | ⟨_, outside⟩)
  · exact operand.sound error
  · exact outside fits

theorem decided_identity {e : ConstExpr turbo} (settled : e.Settled checks) :
    (identity e).Decided checks := by
  intro v folded
  have operand := settled.operand folded
  exact ⟨iff_of_true ⟨computes_iff.mpr ⟨operand.computed, operand.held⟩, operand.sound⟩ trivial,
    fun _ => operand.value⟩

theorem decided_binary {op : ConstOp} {left right : ConstExpr turbo}
    (accepted : (binary op left right).Accepted) (left_settled : left.Settled checks)
    (right_settled : right.Settled checks) : (binary op left right).Decided checks := by
  intro v folded
  obtain ⟨x, left_found, folded⟩ := Option.bind_eq_some_iff.mp folded
  obtain ⟨y, right_found, folded⟩ := Option.bind_eq_some_iff.mp folded
  have left_operand := left_settled.operand left_found
  have right_operand := right_settled.operand right_found
  obtain ⟨pos, half⟩ := rung_cases (binary op left right).type_mem
  have plain : turbo = false → ((binary op left right).type.storage turbo).1 = 64 :=
    fun dialect => width_of_integral accepted dialect (by cases op <;> rfl)
  obtain ⟨emitted, meets_value⟩ := ConstOp.decided (by omega) pos plain
    (fits_of_constBound left_found) (fits_of_constBound right_found) folded
  have computed := @run_binary_of_computed turbo checks op left right x y left_operand.toComputed
    right_operand.toComputed
  have error : (binary op left right).Erroneous checks ↔ op.IsError turbo x y := by
    rw [erroneous_binary_iff, ← left_operand.value, ← right_operand.value]
    constructor
    · rintro (error | error | error)
      · exact absurd error left_operand.sound
      · exact absurd error right_operand.sound
      · exact error
    · exact fun error => .inr (.inr error)
  rw [computes_iff, computed, error, meets_binary, value_binary, ← left_operand.value,
    ← right_operand.value]
  refine ⟨⟨?_, ?_⟩, fun meets => meets_value meets.2⟩
  · rintro ⟨⟨emitted_same, fits⟩, sound⟩
    have meets := emitted.mp ⟨emitted_same, sound⟩
    exact ⟨meets_value meets ▸ fits, meets⟩
  · rintro ⟨fits, meets⟩
    have right_emitted := emitted.mpr meets
    exact ⟨⟨right_emitted.1, meets_value meets ▸ fits⟩, right_emitted.2⟩

theorem decided_rel {op : RelOp} {left right : ConstExpr turbo} :
    (rel op left right).Decided checks := by
  intro v folded
  cases folded

/-- A call of one operand that is computed. -/
theorem erroneous_call {fn : OrdinalFn} {e : ConstExpr turbo} {x : Int}
    (operand : e.Operand checks x) :
    (call fn e).Erroneous checks ↔ fn.IsError turbo checks x := by
  rw [erroneous_call_iff, ← operand.value]
  constructor
  · rintro (error | error)
    · exact absurd error operand.sound
    · exact error
  · exact fun error => .inr error

theorem decided_abs {e : ConstExpr turbo} (settled : e.Settled checks) :
    (call .abs e).Decided checks := by
  intro v folded
  obtain ⟨x, found, folded⟩ := Option.bind_eq_some_iff.mp folded
  have operand := settled.operand found
  have x_fits := fits_of_constBound found
  have v_fits := OrdinalFn.fits_fold x_fits folded
  have same : v = OrdinalFn.abs.value x := by
    rw [OrdinalFn.fold] at folded
    rw [OrdinalFn.value]
    split at folded
    · rename_i negative
      rw [if_pos negative]
      exact (checked_eq_some.mp folded).1.symm
    · rename_i nonneg
      rw [if_neg nonneg]
      exact (Option.some.inj folded).symm
  have inside : absInt x = some v := by
    rw [absInt, if_neg, same]
    · rfl
    · rintro rfl
      rw [same] at v_fits
      exact absurd v_fits (by decide)
  have computed : (call .abs e).run checks = some (BitVec.ofInt _ v) := by
    simp only [run_abs, operand.computed, Option.bind_some, operand.toI64,
      toInt_ofInt_of_fits (by decide : 0 < 64) x_fits, inside, Option.map_some]
  rw [computes_iff, erroneous_call operand, meets_abs, value_call, ← operand.value, ← same]
  refine ⟨⟨fun meets => meets.1.2, fun meets => ⟨⟨computed, meets⟩, ?_⟩⟩, fun _ => rfl⟩
  rintro ⟨_, outside⟩
  exact outside (same ▸ v_fits)

theorem decided_sqr {e : ConstExpr turbo} (settled : e.Settled checks) :
    (call .sqr e).Decided checks := by
  intro v folded
  obtain ⟨x, found, folded⟩ := Option.bind_eq_some_iff.mp folded
  have operand := settled.operand found
  have x_fits := fits_of_constBound found
  obtain ⟨same, v_fits, _⟩ := checked_eq_some.mp folded
  have inside : sqrInt x = some v := by rw [sqrInt, same, if_pos v_fits]
  have computed : (call .sqr e).run checks = some (BitVec.ofInt _ v) := by
    simp only [run_sqr, operand.computed, Option.bind_some, operand.toI64,
      toInt_ofInt_of_fits (by decide : 0 < 64) x_fits, inside, Option.map_some]
  rw [computes_iff, erroneous_call operand, meets_sqr, value_call, ← operand.value,
    OrdinalFn.value, same]
  refine ⟨⟨fun meets => meets.1.2, fun meets => ⟨⟨computed, meets⟩, ?_⟩⟩, fun _ => rfl⟩
  rintro ⟨_, outside⟩
  exact outside (same ▸ v_fits)

/-- Bits that are read as signed give in 64 bits the integer that they are of if and only if it is a
signed one. -/
theorem toI64_signed_iff {w : Nat} {x : Int} (pos : 0 < w) (le : w ≤ 64)
    (int64 : Fits 64 true x) :
    toI64 (BitVec.ofInt w x) true = BitVec.ofInt 64 x ↔ Fits w true x := by
  have read_fits := (fits_denote true (BitVec.ofInt w x)).mono le
  rw [CodeGen.toI64, resize_eq_ofInt, ofInt_inj (by decide) read_fits int64]
  constructor
  · intro same
    rw [← same]
    exact fits_denote true _
  · exact denote_ofInt pos

theorem decided_ord {e : ConstExpr turbo} (settled : e.Settled checks) :
    (call .ord e).Decided checks := by
  intro v folded
  obtain ⟨x, found, folded⟩ := Option.bind_eq_some_iff.mp folded
  obtain rfl := Option.some.inj folded
  have operand := settled.operand found
  have x_fits := fits_of_constBound found
  have computed : (call .ord e).run checks =
      some (CodeGen.toI64 (BitVec.ofInt e.llvmWidth x) (isLooseBool e.type || e.isSigned)) := by
    rw [run_ord, operand.computed]
    rfl
  have signed : (call .ord e).isSigned = true := rfl
  have widened : CodeGen.toI64 (BitVec.ofInt e.llvmWidth x) (isLooseBool e.type || e.isSigned) =
      BitVec.ofInt 64 x ↔ Fits e.llvmWidth (isLooseBool e.type || e.isSigned) x := by
    cases isLooseBool e.type with
    | true => exact toI64_signed_iff e.llvmWidth_pos e.llvmWidth_le x_fits
    | false => exact iff_of_true operand.toI64 operand.held
  rw [computes_iff, erroneous_call operand, computed, signed, meets_ord, ← operand.value, ← widened]
  refine ⟨⟨fun meets => Option.some.inj meets.1.1, fun meets => ⟨⟨congrArg some meets, x_fits⟩, id⟩⟩,
    fun _ => operand.value⟩

/-- A value outside of its range is reported where ranges are checked. -/
theorem rangeCheck_ofInt {range : Option (Int × Int)} {x : Int} (fits : Fits 64 true x) :
    (checks = true ∧ Outside range x) ∧ rangeCheck checks range (BitVec.ofInt 64 x) = none ∨
      ¬(checks = true ∧ Outside range x) ∧
        rangeCheck checks range (BitVec.ofInt 64 x) = some (BitVec.ofInt 64 x) := by
  cases range with
  | none => exact .inr ⟨fun outside => outside.2, rfl⟩
  | some bounds =>
      have read := toInt_ofInt_of_fits (by decide : 0 < 64) fits
      by_cases outside : checks = true ∧ ¬(bounds.1 ≤ x ∧ x ≤ bounds.2)
      · refine .inl ⟨outside, ?_⟩
        rw [rangeCheck, read, if_pos outside]
      · refine .inr ⟨outside, ?_⟩
        rw [rangeCheck, read, if_neg outside]

/-- A value that is checked and cut to its type. -/
theorem cut_iff {range : Option (Int × Int)} {w : Nat} {x : Int} (le : w ≤ 64)
    (fits : Fits 64 true x) :
    (rangeCheck checks range (BitVec.ofInt 64 x)).map (BitVec.setWidth w) =
        some (BitVec.ofInt w x) ↔ ¬(checks = true ∧ Outside range x) := by
  rcases @rangeCheck_ofInt checks range x fits with ⟨outside, reported⟩ | ⟨inside, passed⟩
  · rw [reported]
    exact iff_of_false (fun same => by cases same) (fun inside => inside outside)
  · rw [passed]
    exact iff_of_true (congrArg some (setWidth_ofInt le)) inside

theorem decided_chr {e : ConstExpr turbo} (settled : e.Settled checks) :
    (call .chr e).Decided checks := by
  intro v folded
  obtain ⟨x, found, folded⟩ := Option.bind_eq_some_iff.mp folded
  obtain rfl := Option.some.inj folded
  have operand := settled.operand found
  have computed : (call .chr e).run checks =
      (rangeCheck checks (some (0, 255)) (BitVec.ofInt 64 x)).map (BitVec.setWidth 8) := by
    rw [run_chr, operand.computed]
    exact congrArg (fun bits => (rangeCheck checks (some (0, 255)) bits).map (BitVec.setWidth 8))
      operand.toI64
  have unsigned : (call .chr e).isSigned = false := rfl
  have inside : ¬Outside (some (0, 255)) x ↔ Fits 8 false x := by
    rw [Outside, not_not, fits_unsigned]
    omega
  rw [computes_iff, erroneous_call operand, computed, unsigned, meets_chr, ← operand.value]
  refine ⟨⟨fun meets => meets.1.2, fun fits => ?_⟩, fun _ => operand.value⟩
  have within := inside.mpr fits
  have cut : (rangeCheck checks (some (0, 255)) (BitVec.ofInt 64 x)).map (BitVec.setWidth 8) =
      some (BitVec.ofInt 8 x) :=
    (cut_iff (by decide) (fits_of_constBound found)).mpr fun outside => within outside.2
  exact ⟨⟨cut, fits⟩, fun error => within error.2⟩

/-- The last bit of an integer. -/
theorem ofBool_and_one (x : Int) :
    BitVec.ofBool (BitVec.ofInt 64 x &&& 1 != 0) = BitVec.ofInt 1 (if x % 2 = 0 then 0 else 1) := by
  have whole := @toNat_ofInt 64 x
  have last : (BitVec.ofInt 64 x &&& 1).toNat = (BitVec.ofInt 64 x).toNat % 2 := by
    rw [BitVec.toNat_and]
    exact Nat.and_one_is_mod _
  have zero : BitVec.ofInt 64 x &&& 1 = 0 ↔ x % 2 = 0 := by
    rw [← BitVec.toNat_inj, last]
    change _ = 0 ↔ _
    omega
  by_cases even : x % 2 = 0
  · rw [if_pos even, zero.mpr even]
    rfl
  · rw [if_neg even, bne_iff_ne.mpr (mt zero.mp even)]
    rfl

theorem decided_odd {e : ConstExpr turbo} (settled : e.Settled checks) :
    (call .odd e).Decided checks := by
  intro v folded
  obtain ⟨x, found, folded⟩ := Option.bind_eq_some_iff.mp folded
  obtain rfl := Option.some.inj folded
  have operand := settled.operand found
  have computed : (call .odd e).run checks =
      some (BitVec.ofInt 1 (if x % 2 = 0 then 0 else 1)) := by
    rw [run_odd, operand.computed]
    change some (BitVec.ofBool (CodeGen.toI64 _ _ &&& 1 != 0)) = _
    rw [operand.toI64, ofBool_and_one]
  have held : Fits 1 false (if x % 2 = 0 then 0 else 1) := by
    split <;> decide
  refine ⟨iff_of_true ⟨computes_iff.mpr ⟨computed, held⟩, ?_⟩ trivial, fun _ => ?_⟩
  · rw [erroneous_call operand]
    exact id
  · rw [value_call, ← operand.value]
    rfl

theorem decided_walk {forward : Bool} {e steps : ConstExpr turbo} (settled : e.Settled checks)
    (steps_settled : steps.Settled checks) : (walk forward e steps).Decided checks := by
  intro v folded
  obtain ⟨x, found, folded⟩ := Option.bind_eq_some_iff.mp folded
  obtain ⟨k, steps_found, folded⟩ := Option.bind_eq_some_iff.mp folded
  obtain ⟨same, fits, _⟩ := checked_eq_some.mp folded
  have operand := settled.operand found
  have steps_operand := steps_settled.operand steps_found
  have is_value : (walk forward e steps).value = v := by
    rw [value_walk, ← operand.value, ← steps_operand.value, same]
  have computed : (walk forward e steps).run checks =
      (rangeCheck checks e.type.ordinalRange (BitVec.ofInt 64 v)).map (BitVec.setWidth _) := by
    rw [run_walk, operand.computed, steps_operand.computed]
    change (rangeCheck checks e.type.ordinalRange (if forward then CodeGen.toI64 _ _ +
      CodeGen.toI64 _ _ else CodeGen.toI64 _ _ - CodeGen.toI64 _ _)).map _ = _
    rw [operand.toI64, steps_operand.toI64, ← same]
    cases forward with
    | true => rw [if_pos rfl, if_pos rfl, BitVec.ofInt_add]
    | false =>
        rw [if_neg Bool.false_ne_true, if_neg Bool.false_ne_true, BitVec.sub_eq_add_neg,
          ← BitVec.ofInt_neg, ← BitVec.ofInt_add]
        rfl
  have error : (walk forward e steps).Erroneous checks ↔
      Checking turbo checks ∧ Outside e.type.ordinalRange v := by
    rw [erroneous_walk_iff, is_value]
    constructor
    · rintro (error | error | ⟨_, outside⟩ | outside)
      · exact absurd error operand.sound
      · exact absurd error steps_operand.sound
      · exact absurd fits outside
      · exact outside
    · exact fun outside => .inr (.inr (.inr outside))
  have cut := @cut_iff checks e.type.ordinalRange e.llvmWidth v e.llvmWidth_le fits
  rw [computes_iff, computed, error, meets_walk, is_value, not_and]
  refine ⟨⟨fun meets => ⟨meets.1.2, meets.2⟩, fun meets => ⟨⟨?_, meets.1⟩, meets.2⟩⟩, fun _ => rfl⟩
  exact cut.mpr fun outside => meets.2 (.inr outside.1) outside.2

/-- Every node is decided, as long as what it is made of is settled. -/
theorem decided_call {fn : OrdinalFn} {e : ConstExpr turbo} (settled : e.Settled checks) :
    (call fn e).Decided checks := by
  cases fn with
  | abs => exact decided_abs settled
  | sqr => exact decided_sqr settled
  | ord => exact decided_ord settled
  | chr => exact decided_chr settled
  | odd => exact decided_odd settled

/-! ### What the checker has no value for -/

/-- What the generator's folder of constants finds has 64 bits. -/
theorem fits_of_evalConst {e : ConstExpr turbo} {v : Int} (folded : e.evalConst = some v) :
    Fits 64 true v := by
  induction e generalizing v with
  | literal value => exact Option.some.inj folded ▸ fits_denote true value
  | constant c =>
      have narrow := (llvm_cases c.emitted).2
      exact Option.some.inj folded ▸
        (fits_denote true (BitVec.ofInt c.width c.value)).mono (by omega)
  | negate e =>
      obtain ⟨y, _, folded⟩ := Option.bind_eq_some_iff.mp folded
      exact (checked_eq_some.mp folded).2.1
  | identity e => cases folded
  | binary op left right left_induction right_induction =>
      obtain ⟨u, left_folded, folded⟩ := Option.bind_eq_some_iff.mp folded
      obtain ⟨v, right_folded, folded⟩ := Option.bind_eq_some_iff.mp folded
      exact ConstOp.fits_fold (left_induction left_folded) (right_induction right_folded)
        (refold_eq_some folded)
  | rel op left right => cases folded
  | call fn e => cases folded
  | walk forward e steps => cases folded

theorem constantValueOf_of_none {e : ConstExpr turbo} (unfound : e.constBound = none) :
    e.constantValueOf = e.evalConst := by
  rw [constantValueOf, unfound]

theorem fits_of_constantValueOf {e : ConstExpr turbo} {v : Int}
    (folded : e.constantValueOf = some v) : Fits 64 true v := by
  rcases found : e.constBound with _ | x
  · rw [constantValueOf_of_none found] at folded
    exact fits_of_evalConst folded
  · have same := Folder.fold_of_constBound .constantValueOf found
    obtain rfl := Option.some.inj (same.symm.trans folded)
    exact fits_of_constBound found

/-- The folder of constants finds one value or the other. -/
theorem constantValueOf_of_evalConst {e : ConstExpr turbo} {y : Int}
    (folded : e.evalConst = some y) : ∃ x, e.constantValueOf = some x := by
  rcases found : e.constBound with _ | x
  · exact ⟨y, (constantValueOf_of_none found).trans folded⟩
  · exact ⟨x, Folder.fold_of_constBound .constantValueOf found⟩

theorem constBound_of_small {value : BitVec 64}
    (small : (literal value : ConstExpr turbo).SmallLiterals) :
    (literal value : ConstExpr turbo).constBound = some value.toNat := by
  have small : value.msb = false := small
  rw [constBound, small, if_neg Bool.false_ne_true]
  rfl

/-- An operand that the folder of constants agrees on is computed. -/
theorem Agrees.computed {e : ConstExpr turbo} (agrees : e.Agrees checks .constantValueOf)
    (small : e.SmallLiterals) {x : Int} (folded : e.constantValueOf = some x) :
    e.Computed checks x := by
  obtain ⟨computes, sound⟩ := agrees x folded
  obtain ⟨computed, held⟩ := computes_iff.mp computes
  refine ⟨fun is_literal => ?_, fits_of_constantValueOf folded, computed, held, sound⟩
  obtain ⟨value, is_literal⟩ := Option.ne_none_iff_exists'.mp is_literal
  obtain rfl := literal?_eq_some is_literal
  have found := constBound_of_small small
  exact found.trans ((Folder.fold_of_constBound .constantValueOf found).symm.trans folded)

theorem agrees_of_none {folder : Folder} {e : ConstExpr turbo} (unfolded : folder.fold e = none) :
    e.Agrees checks folder := by
  intro v folded
  rw [unfolded] at folded
  cases folded

/-- A literal that exceeds 64 signed bits is unsigned, and the generator takes it for a negative
integer. -/
theorem literal_refolded {folder : Folder} {value : BitVec 64}
    (unfound : (literal value : ConstExpr turbo).constBound = none) :
    (literal value : ConstExpr turbo).Agrees checks folder ↔
      (literal value : ConstExpr turbo).RefoldsSoundly folder := by
  have large : value.msb = true := by
    by_contra small
    rw [constBound, if_neg small] at unfound
    cases unfound
  have unsigned : (literal value : ConstExpr turbo).isSigned = false := by
    rw [isSigned, type, if_pos large]
    rfl
  have negative : value.toInt < 0 := by
    rw [BitVec.toInt_eq_msb_cond, if_pos large]
    have bound := value.isLt
    omega
  have wrong : ¬(literal value : ConstExpr turbo).Computes checks value.toInt := by
    intro computes
    have held := (computes_iff.mp computes).2
    rw [unsigned, fits_unsigned] at held
    omega
  cases folder with
  | constBound => exact iff_of_true (agrees_of_none unfound) rfl
  | tryEvalConstInt =>
      have folded : (literal value : ConstExpr turbo).tryEvalConstInt = some value.toInt := by
        rw [tryEvalConstInt, unfound]
      exact iff_of_false (fun agrees => wrong (agrees _ folded).1) fun same => by cases same
  | constantValueOf =>
      have folded : (literal value : ConstExpr turbo).constantValueOf = some value.toInt :=
        constantValueOf_of_none unfound
      exact iff_of_false (fun agrees => wrong (agrees _ folded).1) fun same => by cases same

/-- Without such a literal only the folder of constants finds anything more. -/
theorem refolded_of_small {folder : Folder} {e : ConstExpr turbo} (plain : e.literal? = none)
    (small : folder ≠ .constBound → e.SmallLiterals) (unfound : e.constBound = none)
    (constants : folder = .constantValueOf →
      (e.Agrees checks .constantValueOf ↔ e.RefoldsSoundly .constantValueOf)) :
    e.Agrees checks folder ↔ e.RefoldsSoundly folder := by
  have sound (other : folder ≠ .constantValueOf) : e.RefoldsSoundly folder := by
    cases e with
    | literal value => cases plain
    | constant c => trivial
    | negate e => exact fun same => absurd same other
    | identity e => trivial
    | binary op left right => exact fun same => absurd same other
    | rel op left right => trivial
    | call fn e => trivial
    | walk forward e steps => trivial
  cases folder with
  | constBound => exact iff_of_true (agrees_of_none unfound) (sound nofun)
  | tryEvalConstInt =>
      have unfolded : e.tryEvalConstInt = none := by
        by_contra folded
        obtain ⟨v, folded⟩ := Option.ne_none_iff_exists'.mp folded
        rw [constBound_of_tryEvalConstInt (small nofun) folded] at unfound
        cases unfound
      exact iff_of_true (agrees_of_none unfolded) (sound nofun)
  | constantValueOf => exact constants rfl

/-- Of an expression of a kind that it has no case for, the folder of constants finds nothing more. -/
theorem refolded_of_evalConst_none {folder : Folder} {e : ConstExpr turbo}
    (plain : e.literal? = none) (small : folder ≠ .constBound → e.SmallLiterals)
    (unread : e.evalConst = none) (sound : e.RefoldsSoundly .constantValueOf)
    (unfound : e.constBound = none) : e.Agrees checks folder ↔ e.RefoldsSoundly folder :=
  refolded_of_small plain small unfound fun _ =>
    iff_of_true (agrees_of_none ((constantValueOf_of_none unfound).trans unread)) sound

theorem negate_refolded {e : ConstExpr turbo} (small : e.SmallLiterals)
    (agrees : e.Agrees checks .constantValueOf) (unfound : (negate e).constBound = none) :
    (negate e).Agrees checks .constantValueOf ↔ (negate e).RefoldsSoundly .constantValueOf := by
  -- what is computed of an operand that the folder has the value `x` for
  have node {x y : Int} (value : e.constantValueOf = some x) :
      (negate e).Computes checks (-y) ∧ ¬(negate e).Erroneous checks ↔
        BitVec.ofInt e.llvmWidth (-x) = BitVec.ofInt e.llvmWidth (-y) ∧
          Fits e.llvmWidth e.isSigned (-y) ∧ (turbo = false → Fits 64 true (-e.value)) := by
    have operand := agrees.computed small value
    have emitted : (negate e).run checks = some (BitVec.ofInt (negate e).llvmWidth (-y)) ↔
        BitVec.ofInt e.llvmWidth (-x) = BitVec.ofInt e.llvmWidth (-y) := by
      rw [run_negate_of_computed operand]
      exact Option.some_inj
    have lawful : ¬(negate e).Erroneous checks ↔ (turbo = false → Fits 64 true (-e.value)) := by
      rw [erroneous_negate_iff, not_or, not_and_not_right]
      exact and_iff_right operand.sound
    rw [computes_iff, emitted, lawful, and_assoc]
    rfl
  constructor
  · intro agrees_node _ x y value read fits
    obtain ⟨w, folded⟩ := Option.isSome_iff_exists.mp fits
    obtain rfl := (checked_eq_some.mp folded).1
    refine (node value).mp (agrees_node _ ?_)
    change (negate e).constantValueOf = _
    rw [constantValueOf_of_none unfound, evalConst, read]
    exact folded
  · intro sound w folded
    change (negate e).constantValueOf = _ at folded
    rw [constantValueOf_of_none unfound] at folded
    obtain ⟨y, read, folded⟩ := Option.bind_eq_some_iff.mp folded
    obtain ⟨x, value⟩ := constantValueOf_of_evalConst read
    obtain rfl := (checked_eq_some.mp folded).1
    exact (node value).mpr (sound rfl x y value read (folded ▸ rfl))

theorem binary_refolded {op : ConstOp} {left right : ConstExpr turbo}
    (left_small : left.SmallLiterals) (right_small : right.SmallLiterals)
    (left_agrees : left.Agrees checks .constantValueOf)
    (right_agrees : right.Agrees checks .constantValueOf)
    (unfound : (binary op left right).constBound = none) :
    (binary op left right).Agrees checks .constantValueOf ↔
      (binary op left right).RefoldsSoundly .constantValueOf := by
  have node {x y w : Int} (left_value : left.constantValueOf = some x)
      (right_value : right.constantValueOf = some y) :
      (binary op left right).Computes checks w ∧ ¬(binary op left right).Erroneous checks ↔
        op.emit turbo ((binary op left right).type.storage turbo).1 (BitVec.ofInt 64 x)
            (BitVec.ofInt 64 y) (BitVec.ofInt 64 x) (BitVec.ofInt 64 y) =
          some (BitVec.ofInt 64 w) ∧
          Fits 64 (binary op left right).isSigned w ∧
            ¬op.IsError turbo left.value right.value := by
    have left_operand := left_agrees.computed left_small left_value
    have right_operand := right_agrees.computed right_small right_value
    have lawful : ¬(binary op left right).Erroneous checks ↔
        ¬op.IsError turbo left.value right.value := by
      rw [erroneous_binary_iff, not_or, not_or]
      exact (and_iff_right left_operand.sound).trans (and_iff_right right_operand.sound)
    rw [computes_iff, run_binary_of_computed left_operand right_operand, lawful, and_assoc]
    rfl
  constructor
  · intro agrees _ x y u v w left_value right_value left_read right_read folded
    refine (node left_value right_value).mp (agrees _ ?_)
    change (binary op left right).constantValueOf = _
    rw [constantValueOf_of_none unfound, evalConst, left_read, right_read]
    exact folded
  · intro sound w folded
    change (binary op left right).constantValueOf = _ at folded
    rw [constantValueOf_of_none unfound] at folded
    obtain ⟨u, left_read, folded⟩ := Option.bind_eq_some_iff.mp folded
    obtain ⟨v, right_read, folded⟩ := Option.bind_eq_some_iff.mp folded
    obtain ⟨x, left_value⟩ := constantValueOf_of_evalConst left_read
    obtain ⟨y, right_value⟩ := constantValueOf_of_evalConst right_read
    exact (node left_value right_value).mpr
      (sound rfl x y u v w left_value right_value left_read right_read folded)

/-! ### Whole expressions -/

theorem Throughout.here {property : ConstExpr turbo → Prop} {e : ConstExpr turbo}
    (holds : e.Throughout property) : property e := by
  cases e with
  | literal value => exact holds
  | constant c => exact holds
  | negate e => exact holds.1
  | identity e => exact holds.1
  | binary op left right => exact holds.1
  | rel op left right => exact holds.1
  | call fn e => exact holds.1
  | walk forward e steps => exact holds.1

/-- The generator's folders are sound of small literals only. -/
theorem smallLiterals_of_soundly {folder : Folder} (generator : folder ≠ .constBound)
    {e : ConstExpr turbo} (sound : e.Throughout (FoldsSoundly checks folder)) :
    e.SmallLiterals := by
  induction e with
  | literal value =>
      rcases found : (literal value : ConstExpr turbo).constBound with _ | v
      · exact absurd (sound.refolded found) generator
      · rw [constBound] at found
        split at found
        · cases found
        · rename_i small
          exact Bool.eq_false_of_not_eq_true small
  | constant c => trivial
  | negate e induction => exact induction sound.2
  | identity e induction => exact induction sound.2
  | binary op left right left_induction right_induction =>
      exact ⟨left_induction sound.2.1, right_induction sound.2.2⟩
  | rel op left right left_induction right_induction =>
      exact ⟨left_induction sound.2.1, right_induction sound.2.2⟩
  | call fn e induction => exact induction sound.2
  | walk forward e steps induction steps_induction =>
      exact ⟨induction sound.2.1, steps_induction sound.2.2⟩

/-- An expression whose operators are all folded soundly is settled. -/
theorem settled_of_soundly {folder : Folder} {e : ConstExpr turbo} (accepted : e.Accepted)
    (sound : e.Throughout (FoldsSoundly checks folder)) : e.Settled checks := by
  induction e with
  | literal value => exact (decided_literal value).settled sound
  | constant c => exact (decided_constant c).settled sound
  | negate e induction => exact (decided_negate (induction accepted.1 sound.2)).settled sound.1
  | identity e induction => exact (decided_identity (induction accepted.1 sound.2)).settled sound.1
  | binary op left right left_induction right_induction =>
      have left_settled := left_induction accepted.1 sound.2.1
      have right_settled := right_induction accepted.2.1 sound.2.2
      exact (decided_binary accepted left_settled right_settled).settled sound.1
  | rel op left right => exact decided_rel.settled sound.1
  | call fn e induction => exact (decided_call (induction accepted.1 sound.2)).settled sound.1
  | walk forward e steps induction steps_induction =>
      have settled := induction accepted.1 sound.2.1
      have steps_settled := steps_induction accepted.2.1 sound.2.2
      exact (decided_walk settled steps_settled).settled sound.1

/-- `7 mod 3` in Turbo. -/
def sevenModThree : ConstExpr true := binary .mod (literal 7) (literal 3)

/-- `(-7) mod 3` in Turbo. -/
def minusSevenModThree : ConstExpr true := binary .mod (negate (literal 7)) (literal 3)

end ConstExpr

end Plang.CodeGen
