import Plang.CodeGen.IntegerOps

/-!
# What operators on integers give

An arithmetic operator is exact as long as no operand narrower than 64 bits is the negation of an
integer whose type lacks the result.  A relational one is then exact if and only if the type that it
compares in has both integers, or neither.
-/

namespace Plang.CodeGen

open Plang.Sema MachineInt

theorem rung_cases {w : Nat} (rung : w ∈ ladder) : 0 < w ∧ (w ≤ 32 ∨ w = 64) := by
  simp only [ladder, List.mem_cons, List.not_mem_nil, or_false] at rung
  omega

namespace IntType

theorem width_mixed_le {signed unsigned top : Nat} (signed_le : signed ≤ 64) (top_le : top ≤ 64) :
    (mixed signed unsigned top).width ≤ 64 := by
  rw [mixed]
  split
  · exact signed_le
  · split
    · assumption
    · exact top_le

theorem width_commonIntType_le {left right : IntType} (left_le : left.width ≤ 64)
    (right_le : right.width ≤ 64) : (left.commonIntType right).width ≤ 64 := by
  rw [commonIntType]
  split
  · exact max_le left_le right_le
  · split
    · exact width_mixed_le left_le (le_refl _)
    · exact width_mixed_le right_le (le_refl _)

/-- The types that a signed and an unsigned operand are brought to. -/
theorem mixed_cases (signed : Nat) {unsigned : Nat} (rung : unsigned ≤ 32 ∨ unsigned = 64) :
    (∃ width, mixed signed unsigned unsigned = ⟨width, true⟩ ∧ signed ≤ width ∧
        (unsigned = 0 ∨ unsigned < width)) ∨
      (mixed signed unsigned unsigned).width = 64 := by
  by_cases wider : unsigned < signed
  · refine .inl ⟨signed, ?_, le_refl _, .inr wider⟩
    rw [mixed, if_pos wider]
  · by_cases doubled : unsigned * 2 ≤ 64
    · refine .inl ⟨unsigned * 2, ?_, by omega, by omega⟩
      rw [mixed, if_neg wider, if_pos doubled]
    · right
      rw [mixed, if_neg wider, if_neg doubled]
      exact rung.resolve_left (by omega)

/-- Unless it has 64 bits, the type of a signed and an unsigned operand has the integers of
both. -/
theorem mixed_holds {signed unsigned : Nat} {x : Int} (pos : 0 < unsigned)
    (rung : unsigned ≤ 32 ∨ unsigned = 64) (narrow : (mixed signed unsigned unsigned).width ≠ 64)
    (fits : Fits signed true x ∨ Fits unsigned false x) :
    (mixed signed unsigned unsigned).Holds x := by
  rcases mixed_cases signed rung with ⟨width, same, signed_le, unsigned_lt⟩ | full
  · rw [same]
    rcases fits with fits | fits
    · exact fits.mono signed_le
    · exact fits.signed (unsigned_lt.resolve_left (by omega))
  · exact absurd full narrow

/-- Unless it has 64 bits, the type that a comparison is made in has the integers of both
operands. -/
theorem target_holds {left right : IntType} {x : Int} (left_rung : left.width ∈ ladder)
    (right_rung : right.width ∈ ladder) (narrow : (left.target right).width ≠ 64)
    (fits : left.Holds x ∨ right.Holds x) : (left.target right).Holds x := by
  obtain ⟨left_pos, left_half⟩ := rung_cases left_rung
  obtain ⟨right_pos, right_half⟩ := rung_cases right_rung
  by_cases same : left.signed = right.signed
  · rw [target, if_pos same] at *
    rcases fits with fits | fits
    · exact fits.mono (le_max_left _ _)
    · rw [Holds, ← same] at fits
      exact fits.mono (le_max_right _ _)
  · rw [target, if_neg same] at *
    cases left_signed : left.signed with
    | true =>
        have right_unsigned : right.signed = false := by simpa [left_signed] using same
        rw [Holds, Holds, left_signed, right_unsigned] at fits
        rw [if_pos left_signed] at *
        exact mixed_holds right_pos right_half narrow fits
    | false =>
        have right_signed : right.signed = true := by simpa [left_signed] using same
        rw [Holds, Holds, left_signed, right_signed] at fits
        rw [if_neg (by simp [left_signed])] at *
        exact mixed_holds left_pos left_half narrow fits.symm

theorem width_target_le {left right : IntType} (left_le : left.width ≤ 64)
    (right_le : right.width ≤ 64) : (left.target right).width ≤ 64 := by
  rw [target]
  split
  · exact max_le left_le right_le
  · split
    · exact width_mixed_le left_le right_le
    · exact width_mixed_le right_le left_le

theorem le_width_mixed (signed unsigned : Nat) :
    signed ≤ (mixed signed unsigned unsigned).width ∧
      unsigned ≤ (mixed signed unsigned unsigned).width := by
  by_cases wider : unsigned < signed
  · rw [mixed, if_pos wider]
    exact ⟨le_refl _, wider.le⟩
  · by_cases doubled : unsigned * 2 ≤ 64
    · rw [mixed, if_neg wider, if_pos doubled]
      constructor
      · exact (not_lt.mp wider).trans (Nat.le_mul_of_pos_right unsigned (by decide))
      · exact Nat.le_mul_of_pos_right unsigned (by decide)
    · rw [mixed, if_neg wider, if_neg doubled]
      exact ⟨not_lt.mp wider, le_refl _⟩

theorem le_width_target (left right : IntType) : left.width ≤ (left.target right).width := by
  rw [target]
  split
  · exact le_max_left _ _
  · split
    · exact (le_width_mixed _ _).1
    · exact (le_width_mixed _ _).2

theorem target_comm (left right : IntType) : left.target right = right.target left := by
  rw [target, target, max_comm]
  cases left.signed <;> cases right.signed <;> simp

/-- The integer that the bits of another one stand for in the type. -/
def read (type : IntType) (x : Int) : Int := denote type.signed (BitVec.ofInt type.width x)

theorem holds_read (type : IntType) (x : Int) : type.Holds (type.read x) := fits_denote _ _

/-- An integer is read as it is if and only if it is one of the type. -/
theorem read_eq_iff {type : IntType} (pos : 0 < type.width) {x : Int} :
    type.read x = x ↔ type.Holds x := by
  constructor
  · intro same
    rw [← same]
    exact type.holds_read x
  · exact denote_ofInt pos

end IntType

namespace OperandShape

theorem targetType_comm (left right : OperandShape) :
    left.targetType right = right.targetType left := IntType.target_comm _ _

theorem le_width_targetType (left right : OperandShape) :
    left.widthBeside right ≤ (left.targetType right).width :=
  IntType.le_width_target ⟨left.widthBeside right, left.signed⟩ _

theorem widthBeside_of_not_literal {operand other : OperandShape}
    (plain : operand.literal? = none ∨ other.literal? ≠ none) :
    operand.widthBeside other = operand.width := by
  rw [widthBeside]
  split
  · rename_i literal none
    rcases plain with absent | present
    · rw [absent] at literal
      cases literal
    · exact absurd none present
  · rfl

theorem widthBeside_literal {value : BitVec 64} {width : Nat} {signed : Bool} {other : OperandShape}
    (plain : other.literal? = none) :
    (⟨some value, width, signed⟩ : OperandShape).widthBeside other =
      if literalFitsWidth value.toInt other.width (!other.signed) then other.width else width := by
  rw [widthBeside, plain]

end OperandShape

namespace IntExpr

variable {turbo : Bool} {σ : Type*} {memory : σ}

theorem llvmWidth_mem (e : IntExpr turbo σ) : e.llvmWidth ∈ ladder := by
  induction e with
  | literal value => simp [llvmWidth, ladder]
  | operand leaf => exact leaf.emitted
  | negate e induction => exact induction
  | identity e induction => exact induction
  | arith op left right => simp [llvmWidth, ladder]

theorem width_type_le (e : IntExpr turbo σ) : e.type.width ≤ 64 := by
  induction e with
  | literal value =>
      rw [type]
      split
      · exact le_refl _
      · rw [IntType.plain, OrdinalType.defaultIntWidth]
        split <;> simp
  | operand leaf =>
      have rung := rung_cases leaf.declared
      have bound : (leaf.type.storage turbo).1 ≤ 64 := by omega
      exact bound
  | negate e induction => exact induction
  | identity e induction => exact induction
  | arith op left right left_induction right_induction =>
      exact IntType.width_commonIntType_le left_induction right_induction

/-- The expression can be brought to 64 bits: it has them, or its type has its integer in the bits
that it is emitted in. -/
def Widens (e : IntExpr turbo σ) (memory : σ) : Prop :=
  e.llvmWidth = 64 ∨ Fits e.llvmWidth e.type.signed (e.value memory)

/-- No operand in the expression is a narrow negation that its type lacks. -/
def Kept : IntExpr turbo σ → σ → Prop
  | .literal _, _ => True
  | .operand _, _ => True
  | .negate e, memory => e.Kept memory
  | .identity e, memory => e.Kept memory
  | .arith _ left right, memory =>
      left.Kept memory ∧ left.Widens memory ∧ right.Kept memory ∧ right.Widens memory

/-- Bits that stand for the integer can be brought to any width. -/
theorem resize_ofInt {e : IntExpr turbo σ} (widens : e.Widens memory) {width : Nat}
    (width_le : width ≤ 64) :
    resize e.type.signed (BitVec.ofInt e.llvmWidth (e.value memory)) width =
      BitVec.ofInt width (e.value memory) := by
  rcases widens with full | fits
  · exact MachineInt.resize_ofInt (by omega)
  · exact resize_ofInt_of_fits (rung_cases e.llvmWidth_mem).1 fits

/-- What is emitted are the bits of the integer. -/
theorem emit_eq {e : IntExpr turbo σ} (kept : e.Kept memory) :
    e.emit memory = BitVec.ofInt e.llvmWidth (e.value memory) := by
  induction e with
  | literal value =>
      rw [emit, IntExpr.value]
      exact (ofInt_denote false value).symm
  | operand leaf => exact (ofInt_denote _ _).symm
  | negate e induction =>
      rw [emit, induction kept, IntExpr.value]
      exact (BitVec.ofInt_neg).symm
  | identity e induction => exact induction kept
  | arith op left right left_induction right_induction =>
      obtain ⟨left_kept, left_widens, right_kept, right_widens⟩ := kept
      rw [emit, toI64, toI64, left_induction left_kept, right_induction right_kept,
        resize_ofInt left_widens (le_refl _), resize_ofInt right_widens (le_refl _)]
      cases op with
      | plus => exact (BitVec.ofInt_add _ _).symm
      | minus =>
          rw [ArithOp.emit, BitVec.sub_eq_add_neg, ← BitVec.ofInt_neg, ← BitVec.ofInt_add]
          rfl
      | times => exact (BitVec.ofInt_mul _ _).symm

/-! ### Comparisons -/

/-- Both operands of an operator can be brought to 64 bits, and whatever is inside of them. -/
def OperandsKept (left right : IntExpr turbo σ) (memory : σ) : Prop :=
  left.Kept memory ∧ left.Widens memory ∧ right.Kept memory ∧ right.Widens memory

variable {left right : IntExpr turbo σ}

theorem OperandsKept.symm (kept : left.OperandsKept right memory) :
    right.OperandsKept left memory := by
  obtain ⟨left_kept, left_widens, right_kept, right_widens⟩ := kept
  exact ⟨right_kept, right_widens, left_kept, left_widens⟩

theorem targetType_comm (left right : IntExpr turbo σ) :
    left.targetType right = right.targetType left := left.shape.targetType_comm right.shape

theorem widthBeside_mem (left right : IntExpr turbo σ) :
    left.shape.widthBeside right.shape ∈ ladder := by
  rw [OperandShape.widthBeside]
  split
  · split
    · exact right.llvmWidth_mem
    · exact left.llvmWidth_mem
  · exact left.llvmWidth_mem

theorem width_targetType_le (left right : IntExpr turbo σ) :
    (left.targetType right).width ≤ 64 := by
  have left_rung := rung_cases (left.widthBeside_mem right)
  have right_rung := rung_cases (right.widthBeside_mem left)
  exact IntType.width_target_le (by simp only; omega) (by simp only; omega)

/-- A literal that takes the width of what stands beside it has a place in its type. -/
theorem fits_of_literalFitsWidth {v : Int} {w : Nat} {signed : Bool} (rung : w ∈ ladder)
    (narrow : w ≠ 64) (fitting : literalFitsWidth v w (!signed) = true) : Fits w signed v := by
  have half := rung_cases rung
  rw [literalFitsWidth, if_neg (by omega)] at fitting
  cases signed with
  | true =>
      rw [fits_signed]
      simp only [Bool.not_true, Bool.false_eq_true, if_false, decide_eq_true_eq] at fitting
      omega
  | false =>
      rw [fits_unsigned]
      simpa using fitting

theorem literal?_eq_some {e : IntExpr turbo σ} {v : BitVec 64} (literal : e.literal? = some v) :
    e = .literal v := by
  cases e with
  | literal value => exact congrArg IntExpr.literal (Option.some.inj literal)
  | operand leaf => cases literal
  | negate e => cases literal
  | identity e => cases literal
  | arith op left right => cases literal

theorem widthBeside_of_not_literal (other : left.literal? = none ∨ right.literal? ≠ none) :
    left.shape.widthBeside right.shape = left.llvmWidth :=
  OperandShape.widthBeside_of_not_literal other

theorem widthBeside_literal {v : BitVec 64} (other : right.literal? = none) :
    (literal v : IntExpr turbo σ).shape.widthBeside right.shape =
      if literalFitsWidth v.toInt right.llvmWidth (!right.type.signed) then right.llvmWidth
      else 64 :=
  OperandShape.widthBeside_literal other

/-- An operand that counts with less than 64 bits has its integer in its type; or it is a literal,
and the type beside it has the integer that its bits stand for. -/
theorem fits_beside (kept : left.OperandsKept right memory)
    (narrow : left.shape.widthBeside right.shape ≠ 64) :
    Fits (left.shape.widthBeside right.shape) left.type.signed (left.value memory) ∨
      ∃ v : BitVec 64, left = .literal v ∧
        Fits (right.shape.widthBeside left.shape) right.type.signed v.toInt := by
  obtain ⟨left_kept, left_widens, right_kept, right_widens⟩ := kept
  by_cases other : left.literal? = none ∨ right.literal? ≠ none
  · rw [widthBeside_of_not_literal other] at narrow ⊢
    exact .inl (left_widens.resolve_left narrow)
  · rw [not_or, not_not] at other
    obtain ⟨v, literal⟩ := Option.ne_none_iff_exists'.mp other.1
    obtain rfl := literal?_eq_some literal
    rw [widthBeside_literal other.2] at narrow
    split at narrow
    · rename_i fitting
      refine .inr ⟨v, rfl, ?_⟩
      rw [widthBeside_of_not_literal (.inl other.2)]
      exact fits_of_literalFitsWidth right.llvmWidth_mem narrow fitting
    · exact absurd rfl narrow

theorem le_width_targetType (left right : IntExpr turbo σ) :
    left.shape.widthBeside right.shape ≤ (left.targetType right).width :=
  left.shape.le_width_targetType right.shape

theorem width_targetType_pos (left right : IntExpr turbo σ) : 0 < (left.targetType right).width :=
  (rung_cases (left.widthBeside_mem right)).1.trans_le (left.le_width_targetType right)

/-- The integers that a literal stands for, read as unsigned and as signed, have the same bits. -/
theorem ofInt_toNat (v : BitVec 64) {width : Nat} (width_le : width ≤ 64) :
    BitVec.ofInt width (v.toNat : Int) = BitVec.ofInt width v.toInt := by
  have cut (x : Int) : resize true (BitVec.ofInt 64 x) width = BitVec.ofInt width x :=
    MachineInt.resize_ofInt width_le
  have same : BitVec.ofInt 64 (v.toNat : Int) = BitVec.ofInt 64 v.toInt :=
    (ofInt_denote false v).trans (ofInt_denote true v).symm
  rw [← cut, same, cut]

theorem toInt_turn (v : BitVec 64) : v.toInt = v.toNat ∨ v.toInt = v.toNat - 2 ^ 64 := by
  rw [BitVec.toInt_eq_toNat_cond]
  split
  · exact .inl rfl
  · exact .inr rfl

/-- The bits of an operand stand for its integer up to one turn, in the type of the comparison. -/
theorem read_left {other : Bool} (kept : left.OperandsKept right memory)
    (fits : Fits 64 other (left.value memory)) :
    (left.targetType right).read (left.value memory) = left.value memory ∨
      (left.targetType right).read (left.value memory) = left.value memory - 2 ^ 64 ∨
      (left.targetType right).read (left.value memory) = left.value memory + 2 ^ 64 := by
  have positive := left.width_targetType_pos right
  have width_le := left.width_targetType_le right
  by_cases full : (left.targetType right).width = 64
  · rw [IntType.read, full]
    exact denote_ofInt_turn _ fits
  · have narrow : left.shape.widthBeside right.shape ≠ 64 := by
      have wider := left.le_width_targetType right
      omega
    have holds := fun {x : Int} => IntType.target_holds (x := x) (left.widthBeside_mem right)
      (right.widthBeside_mem left) full
    rcases fits_beside kept narrow with fits | ⟨v, rfl, fits⟩
    · exact .inl ((IntType.read_eq_iff positive).mpr (holds (.inl fits)))
    · have same : (targetType (.literal v) right).read v.toNat = v.toInt := by
        rw [IntType.read, ofInt_toNat v width_le]
        exact (IntType.read_eq_iff positive).mpr (holds (.inr fits))
      have turn := toInt_turn v
      rw [← same] at turn
      exact turn.imp_right .inl

theorem read_right {other : Bool} (kept : left.OperandsKept right memory)
    (fits : Fits 64 other (right.value memory)) :
    (left.targetType right).read (right.value memory) = right.value memory ∨
      (left.targetType right).read (right.value memory) = right.value memory - 2 ^ 64 ∨
      (left.targetType right).read (right.value memory) = right.value memory + 2 ^ 64 := by
  rw [targetType_comm]
  exact read_left kept.symm fits

end IntExpr

/-- The instruction of a comparison compares what the bits stand for. -/
theorem RelOp.emit_eq (op : RelOp) {w : Nat} (signed : Bool) (left right : BitVec w) :
    op.emit (!signed) left right = op.holds (denote signed left) (denote signed right) := by
  have equal : (left == right) = decide (denote signed left = denote signed right) := by
    rw [decide_eq_decide.mpr (denote_inj signed), beq_eq_decide]
  cases op with
  | equal => exact equal
  | notEqual => exact (congrArg not equal).trans (decide_not).symm
  | lessThan => cases signed <;> simp [emit, holds, denote, BitVec.slt, BitVec.ult]
  | lessThanOrEqual => cases signed <;> simp [emit, holds, denote, BitVec.sle, BitVec.ule]
  | greaterThan => cases signed <;> simp [emit, holds, denote, BitVec.slt, BitVec.ult]
  | greaterThanOrEqual => cases signed <;> simp [emit, holds, denote, BitVec.sle, BitVec.ule]

namespace IntExpr

variable {turbo : Bool} {σ : Type*} {memory : σ} {left right : IntExpr turbo σ}

/-- A comparison is of what the bits of the two integers stand for in the type of the comparison. -/
theorem compare_eq (op : RelOp) (kept : left.OperandsKept right memory) :
    compare op left right memory =
      op.holds ((left.targetType right).read (left.value memory))
        ((left.targetType right).read (right.value memory)) := by
  obtain ⟨left_kept, left_widens, right_kept, right_widens⟩ := kept
  have width_le := left.width_targetType_le right
  rw [compare, coerceToType, coerceToType, emit_eq left_kept, emit_eq right_kept,
    resize_ofInt left_widens width_le, resize_ofInt right_widens width_le, RelOp.emit_eq]
  rfl

end IntExpr

/-- Whether the operator asks for more than equality. -/
def RelOp.isOrdering : RelOp → Bool
  | .equal => false
  | .notEqual => false
  | .lessThan => true
  | .lessThanOrEqual => true
  | .greaterThan => true
  | .greaterThanOrEqual => true

/-- The condition under which an operator is exact: the type that an ordering compares in has both
integers or neither, if the common type has them. -/
def IntOp.ReadAlike {turbo : Bool} {σ : Type*} (op : IntOp) (left right : IntExpr turbo σ)
    (memory : σ) : Prop :=
  match op with
  | .arith _ => True
  | .rel op =>
      op.isOrdering = true →
        (left.type.commonIntType right.type).Holds (left.value memory) →
          (left.type.commonIntType right.type).Holds (right.value memory) →
            ((left.targetType right).Holds (left.value memory) ↔
              (left.targetType right).Holds (right.value memory))

namespace IntOp

variable {turbo : Bool} {σ : Type*} {memory : σ} {left right : IntExpr turbo σ}

/-- An arithmetic operator is exact. -/
theorem arith_exact (op : ArithOp) (kept : left.OperandsKept right memory) :
    (IntOp.arith op).Exact left right memory := by
  intro holds
  have whole : (IntExpr.arith op left right).Kept memory := kept
  rw [IntExpr.emit_eq whole]
  exact denote_ofInt (by simp [IntExpr.llvmWidth]) (holds.mono (IntExpr.width_type_le _))

/-- The two integers of a comparison are read in their order if and only if they are read alike. -/
theorem rel_read (op : RelOp) (kept : left.OperandsKept right memory)
    (left_holds : (left.type.commonIntType right.type).Holds (left.value memory))
    (right_holds : (left.type.commonIntType right.type).Holds (right.value memory)) :
    op.holds ((left.targetType right).read (left.value memory))
        ((left.targetType right).read (right.value memory)) =
          op.holds (left.value memory) (right.value memory) ↔
      (op.isOrdering = true →
        ((left.targetType right).Holds (left.value memory) ↔
          (left.targetType right).Holds (right.value memory))) := by
  have common_le := IntType.width_commonIntType_le left.width_type_le right.width_type_le
  have left_fits := left_holds.mono common_le
  have right_fits := right_holds.mono common_le
  have positive := left.width_targetType_pos right
  have width_le := left.width_targetType_le right
  have turns := order_iff_alike (IntExpr.read_left kept left_fits) (IntExpr.read_right kept right_fits)
    (left_fits.within (by decide) right_fits)
    (((IntType.holds_read _ _).mono width_le).within (by decide)
      ((IntType.holds_read _ _).mono width_le))
  rw [IntType.read_eq_iff positive, IntType.read_eq_iff positive] at turns
  obtain ⟨less, less_equal, equal⟩ := turns
  cases op with
  | equal => simp [RelOp.holds, RelOp.isOrdering, equal]
  | notEqual => simp [RelOp.holds, RelOp.isOrdering, equal]
  | lessThan => simp [RelOp.holds, RelOp.isOrdering, less]
  | lessThanOrEqual => simp [RelOp.holds, RelOp.isOrdering, less_equal]
  | greaterThan =>
      rw [← not_iff_not (a := _ ≤ _), not_le, not_le] at less_equal
      simp [RelOp.holds, RelOp.isOrdering, less_equal]
  | greaterThanOrEqual =>
      rw [← not_iff_not (a := _ < _), not_lt, not_lt] at less
      simp [RelOp.holds, RelOp.isOrdering, less]

/-- An operator on two integers is exact if and only if it reads them alike. -/
theorem exact_iff_readAlike (op : IntOp) (kept : left.OperandsKept right memory) :
    op.Exact left right memory ↔ op.ReadAlike left right memory := by
  cases op with
  | arith op => exact iff_of_true (arith_exact op kept) trivial
  | rel op =>
      rw [Exact, ReadAlike, IntExpr.compare_eq op kept]
      constructor
      · intro exact ordering left_holds right_holds
        exact (rel_read op kept left_holds right_holds).mp (exact left_holds right_holds) ordering
      · intro alike left_holds right_holds
        exact (rel_read op kept left_holds right_holds).mpr
          fun ordering => alike ordering left_holds right_holds

/-- A variable of Turbo. -/
def held (type : OrdinalType) (declared : (type.storage true).1 ∈ ladder) (read : σ → Int) :
    IntExpr true σ :=
  .operand
    { type := type
      declared := declared
      width := (type.storage true).1
      emitted := declared
      eval := fun memory => BitVec.ofInt _ (read memory) }

/-- A signed variable of 16 bits. -/
def integer (read : σ → Int) : IntExpr true σ := held (.integer 16 true) (by decide) read

/-- An unsigned variable of 16 bits. -/
def word (read : σ → Int) : IntExpr true σ := held (.integer 16 false) (by decide) read

/-- An unsigned variable of 8 bits. -/
def byte (read : σ → Int) : IntExpr true σ := held (.integer 8 false) (by decide) read

/-- A signed and an unsigned variable of one width are compared in more bits. -/
theorem integer_word_exact :
    (IntOp.rel .lessThan).Exact (integer Prod.fst) (word Prod.snd) ((-1 : Int), (65535 : Int)) := by
  have kept : (integer Prod.fst).OperandsKept (word Prod.snd) ((-1 : Int), (65535 : Int)) :=
    ⟨trivial, .inr ⟨by decide, by decide⟩, trivial, .inr ⟨by decide, by decide⟩⟩
  apply (exact_iff_readAlike (.rel .lessThan) kept).mpr
  intro _ _ _
  exact iff_of_true ⟨by decide, by decide⟩ ⟨by decide, by decide⟩

/-- The sum of two bytes is compared with a negative integer as unsigned. -/
theorem sum_of_bytes_not_exact :
    ¬(IntOp.rel .lessThan).Exact (.arith .plus (byte Prod.fst) (byte Prod.fst)) (integer Prod.snd)
      ((1 : Int), (-1 : Int)) := by
  intro exact
  have answer := exact ⟨by decide, by decide⟩ ⟨by decide, by decide⟩
  exact absurd answer (by decide)

end IntOp

end Plang.CodeGen
