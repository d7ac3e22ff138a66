import Plang.Sema.OrdinalType

/-!
# Operators on integers

Integer expressions with the type that the checker gives them and the bits that the generator emits
for them.  A sum is emitted in 64 bits whatever its type, and so is a literal; a comparison brings
both sides to a width and a signedness of its own, found from the emitted widths by the table that
the checker has for types.
-/

namespace Plang.CodeGen

open Plang.Sema MachineInt

/-- An integer type, as promotion sees it. -/
structure IntType where
  width : Nat
  signed : Bool
deriving DecidableEq, Repr

/-- The widths that integers are held in. -/
def ladder : List Nat := [8, 16, 32, 64]

namespace IntType

/-- An integer of the type. -/
abbrev Holds (type : IntType) (x : Int) : Prop := Fits type.width type.signed x

/-- The width and signedness that promotion sees of an ordinal type. -/
def ofOrdinal (turbo : Bool) (type : OrdinalType) : IntType :=
  ⟨(type.storage turbo).1, (type.storage turbo).2⟩

/-- The dialect's plain integers. -/
def plain (turbo : Bool) : IntType := ⟨OrdinalType.defaultIntWidth turbo, true⟩

/-- The type of an operation on a signed and an unsigned operand, when the top width is the given
one. -/
def mixed (signed unsigned top : Nat) : IntType :=
  if unsigned < signed then ⟨signed, true⟩
  else if unsigned * 2 ≤ 64 then ⟨unsigned * 2, true⟩
  else ⟨top, signed = unsigned⟩

/-- The type that the checker gives an operation. -/
def commonIntType (left right : IntType) : IntType :=
  if left.signed = right.signed then ⟨max left.width right.width, left.signed⟩
  else if left.signed then mixed left.width right.width 64
  else mixed right.width left.width 64

/-- The type that the generator compares in, by the emitted widths. -/
def target (left right : IntType) : IntType :=
  if left.signed = right.signed then ⟨max left.width right.width, left.signed⟩
  else if left.signed then mixed left.width right.width right.width
  else mixed right.width left.width left.width

end IntType

inductive ArithOp where
  | plus
  | minus
  | times
  deriving DecidableEq, Repr

inductive RelOp where
  | equal
  | notEqual
  | lessThan
  | lessThanOrEqual
  | greaterThan
  | greaterThanOrEqual
  deriving DecidableEq, Repr

/-- Whatever else is an operand: a variable, a call, a quotient. -/
structure Operand (turbo : Bool) (σ : Type*) where
  type : OrdinalType
  declared : (type.storage turbo).1 ∈ ladder
  /-- The width it is emitted in. -/
  width : Nat
  emitted : width ∈ ladder
  eval : σ → BitVec width

inductive IntExpr (turbo : Bool) (σ : Type*) where
  /-- A literal below `2 ^ 64`. -/
  | literal (value : BitVec 64)
  | operand (leaf : Operand turbo σ)
  | negate (e : IntExpr turbo σ)
  | identity (e : IntExpr turbo σ)
  | arith (op : ArithOp) (left right : IntExpr turbo σ)

namespace IntExpr

variable {turbo : Bool} {σ : Type*}

/-- The type of the expression.  A literal that exceeds the signed integers of 64 bits is an
unsigned one, and any other one is a plain integer. -/
def type : IntExpr turbo σ → IntType
  | .literal value => if value.msb then ⟨64, false⟩ else .plain turbo
  | .operand leaf => .ofOrdinal turbo leaf.type
  | .negate e => e.type
  | .identity e => e.type
  | .arith _ left right => left.type.commonIntType right.type

/-- The width that the expression is emitted in. -/
def llvmWidth : IntExpr turbo σ → Nat
  | .literal _ => 64
  | .operand leaf => leaf.width
  | .negate e => e.llvmWidth
  | .identity e => e.llvmWidth
  | .arith _ _ _ => 64

def literal? : IntExpr turbo σ → Option (BitVec 64)
  | .literal value => some value
  | .operand _ => none
  | .negate _ => none
  | .identity _ => none
  | .arith _ _ _ => none

end IntExpr

/-- The instruction of an operator. -/
def ArithOp.emit : ArithOp → BitVec 64 → BitVec 64 → BitVec 64
  | .plus, left, right => left + right
  | .minus, left, right => left - right
  | .times, left, right => left * right

/-- Bits are widened or cut by the type of the expression that they are of. -/
def coerceToType {w : Nat} (bits : BitVec w) (width : Nat) (signed : Bool) : BitVec width :=
  resize signed bits width

def toI64 {w : Nat} (bits : BitVec w) (signed : Bool) : BitVec 64 := resize signed bits 64

/-- Whether a literal is one of these bits. -/
def literalFitsWidth (v : Int) (w : Nat) (unsigned : Bool) : Bool :=
  if w = 0 ∨ 64 ≤ w then true
  else if unsigned then 0 ≤ v ∧ v < 2 ^ w
  else -2 ^ (w - 1) ≤ v ∧ v ≤ 2 ^ (w - 1) - 1

/-- The instruction of a comparison, of bits of one width. -/
def RelOp.emit {w : Nat} (uns : Bool) : RelOp → BitVec w → BitVec w → Bool
  | .equal, left, right => left == right
  | .notEqual, left, right => left != right
  | .lessThan, left, right => if uns then left.ult right else left.slt right
  | .lessThanOrEqual, left, right => if uns then left.ule right else left.sle right
  | .greaterThan, left, right => if uns then right.ult left else right.slt left
  | .greaterThanOrEqual, left, right => if uns then right.ule left else right.sle left

/-- An operand as the other one sees it: the bits of a literal, the width, and whether it is read as
signed. -/
structure OperandShape where
  literal? : Option (BitVec 64)
  width : Nat
  signed : Bool

namespace OperandShape

/-- The width that an operand counts with: a literal takes the width of what stands beside it, if it
fits there. -/
def widthBeside (operand other : OperandShape) : Nat :=
  match operand.literal?, other.literal? with
  | some value, none =>
      if literalFitsWidth value.toInt other.width (!other.signed) then other.width
      else operand.width
  | _, _ => operand.width

/-- The type that two operands are brought to. -/
def targetType (left right : OperandShape) : IntType :=
  .target ⟨left.widthBeside right, left.signed⟩ ⟨right.widthBeside left, right.signed⟩

end OperandShape

namespace IntExpr

variable {turbo : Bool} {σ : Type*}

/-- The bits of the expression. -/
def emit : (e : IntExpr turbo σ) → σ → BitVec e.llvmWidth
  | .literal value, _ => value
  | .operand leaf, memory => leaf.eval memory
  | .negate e, memory => -e.emit memory
  | .identity e, memory => e.emit memory
  | .arith op left right, memory =>
      op.emit (toI64 (left.emit memory) left.type.signed)
        (toI64 (right.emit memory) right.type.signed)

/-- The properties of the expression that decide how it is brought to a common type. -/
def shape (e : IntExpr turbo σ) : OperandShape := ⟨e.literal?, e.llvmWidth, e.type.signed⟩

/-- The type that two operands are compared in. -/
def targetType (left right : IntExpr turbo σ) : IntType := left.shape.targetType right.shape

/-- A comparison. -/
def compare (op : RelOp) (left right : IntExpr turbo σ) (memory : σ) : Bool :=
  let wide := left.targetType right
  op.emit (!wide.signed) (coerceToType (left.emit memory) wide.width left.type.signed)
    (coerceToType (right.emit memory) wide.width right.type.signed)

end IntExpr

/-! ### What they should be -/

/-- The operation on integers. -/
def ArithOp.apply : ArithOp → Int → Int → Int
  | .plus, x, y => x + y
  | .minus, x, y => x - y
  | .times, x, y => x * y

/-- The relation of integers. -/
def RelOp.holds : RelOp → Int → Int → Bool
  | .equal, x, y => x = y
  | .notEqual, x, y => x ≠ y
  | .lessThan, x, y => x < y
  | .lessThanOrEqual, x, y => x ≤ y
  | .greaterThan, x, y => y < x
  | .greaterThanOrEqual, x, y => y ≤ x

/-- The operators of two integers. -/
inductive IntOp where
  | arith (op : ArithOp)
  | rel (op : RelOp)
  deriving DecidableEq, Repr

namespace IntExpr

variable {turbo : Bool} {σ : Type*}

/-- The integer that the expression stands for. -/
def value : IntExpr turbo σ → σ → Int
  | .literal value, _ => value.toNat
  | .operand leaf, memory => denote (leaf.type.isSigned turbo) (leaf.eval memory)
  | .negate e, memory => -e.value memory
  | .identity e, memory => e.value memory
  | .arith op left right, memory => op.apply (left.value memory) (right.value memory)

end IntExpr

/-- An arithmetic operator gives the result on integers whenever the type of the expression has it,
and a relational one gives the relation of the integers whenever the common type has both. -/
def IntOp.Exact {turbo : Bool} {σ : Type*} (op : IntOp) (left right : IntExpr turbo σ) (memory : σ) :
    Prop :=
  match op with
  | .arith op =>
      let e := IntExpr.arith op left right
      e.type.Holds (e.value memory) → denote e.type.signed (e.emit memory) = e.value memory
  | .rel op =>
      (left.type.commonIntType right.type).Holds (left.value memory) →
        (left.type.commonIntType right.type).Holds (right.value memory) →
          IntExpr.compare op left right memory = op.holds (left.value memory) (right.value memory)

/-! ### Values as they are computed -/

/-- A value of an ordinal type as it was computed, in the width that its expression is emitted in.
Only Turbo has integers beyond 64 signed bits. -/
structure OrdinalValue (turbo : Bool) where
  width : Nat
  signed : Bool
  value : Int
  pos : 0 < width
  width_le : width ≤ 64
  held : Fits width signed value
  plain : turbo = false → Fits 64 true value

namespace OrdinalValue

variable {turbo : Bool} (x : OrdinalValue turbo)

/-- The bits that are worked with. -/
def i64 : BitVec 64 := toI64 (BitVec.ofInt x.width x.value) x.signed

theorem i64_eq : x.i64 = BitVec.ofInt 64 x.value := resize_ofInt_of_fits x.pos x.held

/-- A value beyond 64 signed bits is one of Turbo's, and has 64 unsigned ones. -/
theorem beyond (unfit : ¬Fits 64 true x.value) :
    turbo = true ∧ 2 ^ 63 ≤ x.value ∧ x.value < 2 ^ 64 := by
  have dialect : turbo = true := by
    by_contra other
    exact unfit (x.plain (Bool.eq_false_iff.mpr other))
  have held := x.held
  refine ⟨dialect, ?_⟩
  cases sign : x.signed with
  | true =>
      rw [sign] at held
      exact (unfit (held.mono x.width_le)).elim
  | false =>
      rw [sign] at held
      have wide := held.mono x.width_le
      rw [fits_unsigned] at wide
      rw [fits_signed] at unfit
      omega

end OrdinalValue

end Plang.CodeGen
