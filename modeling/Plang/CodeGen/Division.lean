import Plang.CodeGen.FoldOperators
import Plang.CodeGen.Promotion

/-!
# Division at run time

One signed instruction of 64 bits serves the quotients of every integer type, and another one the
remainders.  The tests of the dialect stand before it, in the width of the operation's type; what
they let through is divided whatever it is.
-/

namespace Plang.CodeGen

open Plang.Sema MachineInt

namespace Division

/-- The two operators. -/
inductive DivOp where
  | div
  | mod
  deriving DecidableEq, Repr

/-- The errors that a division stops a program with. -/
inductive RunError where
  | plang_tp_runerror (Code : Nat)
  | plang_err_div_zero (op : DivOp)
  | plang_err_div_overflow
  | plang_err_mod_divisor (divisor : BitVec 64)
  deriving DecidableEq, Repr

/-- The outcome of an operation. -/
inductive Outcome where
  /-- The run-time error is reported. -/
  | reported (error : RunError)
  /-- An instruction is executed on operands that it is not defined for. -/
  | undefined
  | yields (bits : BitVec 64)
  deriving DecidableEq, Repr

/-- The signed quotient is not defined for a zero divisor, nor where it is not an integer of the
width. -/
def CreateSDiv (n d : BitVec 64) : Outcome :=
  if d = 0 ∨ n = BitVec.intMin 64 ∧ d = -1 then .undefined else .yields (n.sdiv d)

/-- The signed remainder is not defined where the quotient is not. -/
def CreateSRem (n d : BitVec 64) : Outcome :=
  if d = 0 ∨ n = BitVec.intMin 64 ∧ d = -1 then .undefined else .yields (n.srem d)

/-- A test in front of what follows. -/
def emitGuard (failCond : Bool) (error : RunError) (next : Outcome) : Outcome :=
  if failCond then .reported error else next

def emitDivZeroCheck (turbo : Bool) {Width : Nat} (divisor : BitVec Width) (op : DivOp) :
    Outcome → Outcome :=
  emitGuard (divisor == 0) (if turbo then .plang_tp_runerror 200 else .plang_err_div_zero op)

def emitDivOverflowCheck (turbo : Bool) {Width : Nat} (dividend divisor : BitVec Width) :
    Outcome → Outcome :=
  emitGuard (dividend == BitVec.intMin Width && divisor == -1)
    (if turbo then .plang_tp_runerror 215 else .plang_err_div_overflow)

/-- Outside Turbo no remainder has a divisor that is not positive. -/
def emitModDivisorCheck (turbo : Bool) {Width : Nat} (divisor : BitVec Width) : Outcome → Outcome :=
  if turbo then emitGuard (divisor == 0) (.plang_tp_runerror 200)
  else emitGuard (divisor.sle 0) (.plang_err_mod_divisor (toI64 divisor true))

/-- A quotient.  Turbo tests for the one that overflows at 64 bits only, and divides by one then. -/
def quotient (turbo : Bool) (width : Nat) (n d : BitVec 64) (nSigned dSigned : Bool) : Outcome :=
  let nAtWidth := coerceToType n width nSigned
  let dAtWidth := coerceToType d width dSigned
  emitDivZeroCheck turbo dAtWidth .div <|
    if turbo then
      if width < 64 then CreateSDiv n d
      else
        let bad := nAtWidth == BitVec.intMin width && dAtWidth == -1
        CreateSDiv n (if bad then 1 else d)
    else emitDivOverflowCheck turbo nAtWidth dAtWidth (CreateSDiv n d)

/-- A remainder, which is made nonnegative outside Turbo. -/
def remainder (turbo : Bool) (width : Nat) (n d : BitVec 64) (dSigned : Bool) : Outcome :=
  emitModDivisorCheck turbo (coerceToType d width dSigned) <|
    match CreateSRem n d with
    | .yields r => .yields (if turbo then r else if r.slt 0 then r + d else r)
    | .undefined => .undefined
    | .reported error => .reported error

/-- The operator, of two numbers of 64 bits and in the width of its type. -/
def DivOp.emit (turbo : Bool) (width : Nat) (n d : BitVec 64) (nSigned dSigned : Bool) :
    DivOp → Outcome
  | .div => quotient turbo width n d nSigned dSigned
  | .mod => remainder turbo width n d dSigned

section Lowering

variable {turbo : Bool} {σ : Type*}

/-- An operand as it is divided: brought to the type that it would be compared in, and then to 64
bits. -/
def operand (e other : IntExpr turbo σ) (memory : σ) : BitVec 64 :=
  toI64 (coerceToType (e.emit memory) (e.targetType other).width e.type.signed) e.type.signed

/-- The code generated for an operator. -/
def DivOp.run (op : DivOp) (left right : IntExpr turbo σ) (memory : σ) : Outcome :=
  op.emit turbo (left.type.commonIntType right.type).width (operand left right memory)
    (operand right left memory) left.type.signed right.type.signed

/-! ### What it should be -/

/-- Every operand inside is an integer of the dialect: outside Turbo they all have 64 bits. -/
def OfDialect : IntExpr turbo σ → Prop
  | .literal _ => True
  | .operand leaf => turbo = false → (leaf.type.storage turbo).1 = 64
  | .negate e => OfDialect e
  | .identity e => OfDialect e
  | .arith _ left right => OfDialect left ∧ OfDialect right

end Lowering

/-- The quotient is truncated, and the remainder is that of the dialect. -/
def DivOp.apply (turbo : Bool) : DivOp → Int → Int → Int
  | .div, x, y => x.tdiv y
  | .mod, x, y => if turbo then x.tmod y else x % y

/-- The dialect has no result: there is no quotient or remainder, or no integer of 64 bits for it,
which Turbo does not ask. -/
def DivOp.Refuses (turbo : Bool) : DivOp → Int → Int → Prop
  | .div, x, y => y = 0 ∨ turbo = false ∧ ¬Fits 64 true (x.tdiv y)
  | .mod, _, y => if turbo then y = 0 else y ≤ 0

/-- The error that is reported for a divisor that the operator does not have. -/
def DivOp.error (turbo : Bool) : DivOp → Int → RunError
  | .div, y =>
      if turbo then .plang_tp_runerror 200
      else if y = 0 then .plang_err_div_zero .div
      else .plang_err_div_overflow
  | .mod, y =>
      if turbo then .plang_tp_runerror 200 else .plang_err_mod_divisor (BitVec.ofInt 64 y)

/-- The operator meets its operands: both are signed integers of 64 bits, the divisor does not
vanish in the width of the type, and where Turbo does not test for it, the quotient is one of 64
bits. -/
structure DivOp.Meets (op : DivOp) (turbo : Bool) (width : Nat) (x y : Int) : Prop where
  dividend : Fits 64 true x
  divisor : Fits 64 true y
  noticed : y ≠ 0 → BitVec.ofInt width y ≠ 0
  defined : turbo = true → op = .mod ∨ width < 64 → ¬(x = -2 ^ 63 ∧ y = -1)

/-! ### Operands -/

section Operands

variable {turbo : Bool} {σ : Type*} {memory : σ} {e other : IntExpr turbo σ}

/-- A signed and a narrow unsigned operand are brought to a signed type. -/
theorem signed_target {left right : IntType} (right_rung : right.width ∈ ladder)
    (narrow : (left.target right).width ≠ 64) (signed : left.signed = true) :
    (left.target right).signed = true := by
  rw [IntType.target] at *
  split
  · exact signed
  · rename_i apart
    rw [if_neg apart, if_pos signed] at narrow
    rcases IntType.mixed_cases left.width (rung_cases right_rung).2 with ⟨_, same, _⟩ | full
    · rw [same]
    · exact absurd full narrow

/-- An operand that is a signed integer of 64 bits is divided as the integer that it is. -/
theorem operand_eq (kept : e.OperandsKept other memory) (fits : Fits 64 true (e.value memory)) :
    operand e other memory = BitVec.ofInt 64 (e.value memory) := by
  have width_le := e.width_targetType_le other
  have positive := e.width_targetType_pos other
  rw [operand, coerceToType, IntExpr.emit_eq kept.1, IntExpr.resize_ofInt kept.2.1 width_le, toI64]
  by_cases full : (e.targetType other).width = 64
  · exact MachineInt.resize_ofInt (by omega)
  · apply resize_ofInt_of_fits positive
    have wider := e.le_width_targetType other
    have narrow : e.shape.widthBeside other.shape ≠ 64 := by omega
    rcases IntExpr.fits_beside kept narrow with beside | ⟨v, rfl, beside⟩
    · exact beside.mono wider
    · -- a literal that counts with the width beside it is of a signed type
      have held := fits_signed.mp fits
      have small : 2 * v.toNat < 2 ^ 64 := by
        change -2 ^ 63 ≤ (v.toNat : Int) ∧ (v.toNat : Int) < 2 ^ 63 at held
        omega
      have signed : (IntExpr.literal v : IntExpr turbo σ).type.signed = true := by
        rw [IntExpr.type, BitVec.msb_eq_false_iff_two_mul_lt.mpr small]
        rfl
      have holds := IntType.target_holds ((IntExpr.literal v).widthBeside_mem other)
        (other.widthBeside_mem (.literal v)) full (.inr beside)
      rw [IntType.Holds, signed_target (other.widthBeside_mem (.literal v)) full signed,
        BitVec.toInt_eq_toNat_of_lt small] at holds
      rw [signed]
      exact holds

end Operands

theorem width_of_dialect {turbo : Bool} {σ : Type*} {e : IntExpr turbo σ} (dialect : OfDialect e)
    (iso : turbo = false) : e.type.width = 64 := by
  induction e with
  | literal value =>
      subst iso
      rw [IntExpr.type]
      split <;> rfl
  | operand leaf => exact dialect iso
  | negate e induction => exact induction dialect
  | identity e induction => exact induction dialect
  | arith op left right left_induction right_induction =>
      exact IntType.width_commonIntType_of_full (left_induction dialect.1)
        (right_induction dialect.2)

/-! ### Integers in, integers out -/

section Integers

variable {turbo : Bool} {width : Nat} {x y : Int}

theorem ofInt_eq_zero (fits : Fits 64 true y) : BitVec.ofInt 64 y = 0 ↔ y = 0 :=
  @ofInt_inj 64 true y 0 (by decide) fits (by decide)

theorem overflows_iff (x_fits : Fits 64 true x) (y_fits : Fits 64 true y) :
    BitVec.ofInt 64 x = BitVec.intMin 64 ∧ BitVec.ofInt 64 y = -1 ↔ x = -2 ^ 63 ∧ y = -1 := by
  have least := @ofInt_inj 64 true x (-2 ^ 63) (by decide) x_fits (by decide)
  have minus := @ofInt_inj 64 true y (-1) (by decide) y_fits (by decide)
  exact and_congr least minus

/-- The instructions are defined for integers that have a quotient of 64 bits. -/
theorem defined_ofInt (x_fits : Fits 64 true x) (y_fits : Fits 64 true y) (y_ne : y ≠ 0)
    (inside : ¬(x = -2 ^ 63 ∧ y = -1)) :
    ¬(BitVec.ofInt 64 y = 0 ∨ BitVec.ofInt 64 x = BitVec.intMin 64 ∧ BitVec.ofInt 64 y = -1) :=
  not_or.mpr ⟨mt (ofInt_eq_zero y_fits).mp y_ne, mt (overflows_iff x_fits y_fits).mp inside⟩

theorem createSDiv_ofInt (x_fits : Fits 64 true x) (y_fits : Fits 64 true y) (y_ne : y ≠ 0)
    (inside : ¬(x = -2 ^ 63 ∧ y = -1)) :
    CreateSDiv (BitVec.ofInt 64 x) (BitVec.ofInt 64 y) = .yields (BitVec.ofInt 64 (x.tdiv y)) := by
  rw [CreateSDiv, if_neg (defined_ofInt x_fits y_fits y_ne inside),
    sdiv_ofInt (by decide) x_fits y_fits]

theorem createSRem_ofInt (x_fits : Fits 64 true x) (y_fits : Fits 64 true y) (y_ne : y ≠ 0)
    (inside : ¬(x = -2 ^ 63 ∧ y = -1)) :
    CreateSRem (BitVec.ofInt 64 x) (BitVec.ofInt 64 y) = .yields (BitVec.ofInt 64 (x.tmod y)) := by
  rw [CreateSRem, if_neg (defined_ofInt x_fits y_fits y_ne inside),
    srem_ofInt (by decide) x_fits y_fits]

theorem fits_quotient (x_fits : Fits 64 true x) (inside : ¬(x = -2 ^ 63 ∧ y = -1)) :
    Fits 64 true (x.tdiv y) := by
  apply fits_tdiv x_fits
  rw [divOverflows, decide_eq_false_iff_not]
  exact fun overflows => inside overflows.symm

/-- The operator reports exactly where the dialect has no result, and computes the result elsewhere,
apart from the quotient that overflows in Turbo, for which it gives the dividend. -/
def DivOp.Right (op : DivOp) (turbo : Bool) (x y : Int) (outcome : Outcome) : Prop :=
  (op.Refuses turbo x y → outcome = .reported (op.error turbo y)) ∧
  (¬op.Refuses turbo x y →
    ∃ bits, outcome = .yields bits ∧
      if turbo = true ∧ op = .div ∧ x = -2 ^ 63 ∧ y = -1 then bits.toInt = x
      else bits.toInt = op.apply turbo x y)

/-- A divisor is tested for in the width of the type. -/
theorem vanishes_iff {op : DivOp} (meets : op.Meets turbo width x y) :
    BitVec.ofInt width y = 0 ↔ y = 0 := by
  constructor
  · intro vanishes
    by_contra y_ne
    exact meets.noticed y_ne vanishes
  · rintro rfl
    rfl

theorem right_of_yields {op : DivOp} (allowed : ¬op.Refuses turbo x y)
    (fits : Fits 64 true (op.apply turbo x y))
    (ordinary : ¬(turbo = true ∧ op = .div ∧ x = -2 ^ 63 ∧ y = -1)) :
    op.Right turbo x y (.yields (BitVec.ofInt 64 (op.apply turbo x y))) := by
  refine ⟨fun refused => absurd refused allowed, fun _ => ⟨_, rfl, ?_⟩⟩
  rw [if_neg ordinary]
  exact toInt_ofInt_of_fits (by decide) fits

theorem right_of_reported {op : DivOp} (refused : op.Refuses turbo x y) :
    op.Right turbo x y (.reported (op.error turbo y)) :=
  ⟨fun _ => rfl, fun allowed => absurd refused allowed⟩

theorem quotient_right {nSigned dSigned : Bool} (width_le : width ≤ 64)
    (iso : turbo = false → width = 64) (meets : DivOp.div.Meets turbo width x y) :
    DivOp.div.Right turbo x y
      (quotient turbo width (BitVec.ofInt 64 x) (BitVec.ofInt 64 y) nSigned dSigned) := by
  have x_fits := meets.dividend
  have y_fits := meets.divisor
  have vanishes := vanishes_iff meets
  have overflows := overflows_iff x_fits y_fits
  simp only [quotient, coerceToType, MachineInt.resize_ofInt width_le, emitDivZeroCheck, emitGuard,
    emitDivOverflowCheck, beq_iff_eq, Bool.and_eq_true]
  by_cases zero : y = 0
  · have refused : DivOp.div.Refuses turbo x y := .inl zero
    rw [if_pos (vanishes.mpr zero)]
    have reported := right_of_reported refused
    rw [DivOp.error] at reported
    cases turbo with
    | true => exact reported
    | false => rwa [if_neg Bool.false_ne_true, if_pos zero] at reported
  · rw [if_neg (mt vanishes.mp zero)]
    cases turbo with
    | true =>
        have allowed : ¬DivOp.div.Refuses true x y := by
          rintro (zero_again | ⟨iso, _⟩)
          · exact zero zero_again
          · cases iso
        rw [if_pos rfl]
        split
        · rename_i narrow
          have inside := meets.defined rfl (.inr narrow)
          rw [createSDiv_ofInt x_fits y_fits zero inside]
          exact right_of_yields allowed (fits_quotient x_fits inside) fun least => inside least.2.2
        · rename_i full
          obtain rfl : width = 64 := by omega
          split
          · rename_i bad
            obtain ⟨rfl, rfl⟩ := overflows.mp bad
            refine ⟨fun refused => absurd refused allowed, fun _ => ⟨BitVec.intMin 64, ?_, ?_⟩⟩
            · decide
            · decide
          · rename_i good
            have inside := mt overflows.mpr good
            rw [createSDiv_ofInt x_fits y_fits zero inside]
            exact right_of_yields allowed (fits_quotient x_fits inside)
              fun least => inside least.2.2
    | false =>
        obtain rfl := iso rfl
        rw [if_neg Bool.false_ne_true]
        split
        · rename_i bad
          obtain ⟨rfl, rfl⟩ := overflows.mp bad
          exact right_of_reported (.inr ⟨rfl, by decide⟩)
        · rename_i good
          have inside := mt overflows.mpr good
          have fits := fits_quotient x_fits inside
          have allowed : ¬DivOp.div.Refuses false x y := by
            rintro (zero_again | ⟨_, outside⟩)
            · exact zero zero_again
            · exact outside fits
          rw [createSDiv_ofInt x_fits y_fits zero inside]
          exact right_of_yields allowed fits fun least => Bool.false_ne_true least.1

theorem remainder_right {dSigned : Bool} (width_le : width ≤ 64)
    (iso : turbo = false → width = 64) (meets : DivOp.mod.Meets turbo width x y) :
    DivOp.mod.Right turbo x y
      (remainder turbo width (BitVec.ofInt 64 x) (BitVec.ofInt 64 y) dSigned) := by
  have x_fits := meets.dividend
  have y_fits := meets.divisor
  have vanishes := vanishes_iff meets
  rw [remainder, coerceToType, MachineInt.resize_ofInt width_le, emitModDivisorCheck]
  cases turbo with
  | true =>
      rw [if_pos rfl, emitGuard]
      simp only [beq_iff_eq]
      by_cases zero : y = 0
      · have refused : DivOp.mod.Refuses true x y := zero
        rw [if_pos (vanishes.mpr zero)]
        exact right_of_reported refused
      · have allowed : ¬DivOp.mod.Refuses true x y := zero
        have inside := meets.defined rfl (.inl rfl)
        rw [if_neg (mt vanishes.mp zero), createSRem_ofInt x_fits y_fits zero inside]
        exact right_of_yields allowed (fits_tmod y_fits zero) fun least => absurd least.2.1 (by decide)
  | false =>
      obtain rfl := iso rfl
      have guard : (BitVec.ofInt 64 y).sle 0 = decide (y ≤ 0) :=
        sle_ofInt (by decide) y_fits (by decide : Fits 64 true 0)
      rw [if_neg Bool.false_ne_true, emitGuard, guard]
      by_cases positive : 0 < y
      · have allowed : ¬DivOp.mod.Refuses false x y := not_le.mpr positive
        have inside : ¬(x = -2 ^ 63 ∧ y = -1) := by omega
        rw [if_neg (by simpa using positive), createSRem_ofInt x_fits y_fits positive.ne' inside]
        dsimp only
        rw [if_neg Bool.false_ne_true, adjusted_ofInt positive y_fits]
        exact right_of_yields allowed (fits_emod y_fits positive.ne')
          fun least => Bool.false_ne_true least.1
      · have refused : DivOp.mod.Refuses false x y := not_lt.mp positive
        have whole : toI64 (BitVec.ofInt 64 y) true = BitVec.ofInt 64 y :=
          MachineInt.resize_ofInt (le_refl 64)
        rw [if_pos (by simpa using positive), whole]
        exact right_of_reported refused

end Integers

/-! ### Instructions that are not defined -/

section Undefined

variable {turbo : Bool} {width : Nat} {n d : BitVec 64}

theorem createSDiv_eq_undefined :
    CreateSDiv n d = .undefined ↔ d = 0 ∨ n = BitVec.intMin 64 ∧ d = -1 := by
  rw [CreateSDiv]
  split
  · rename_i bad
    exact iff_of_true rfl bad
  · rename_i good
    exact iff_of_false Outcome.noConfusion good

theorem coerceToType_ofInt {x : Int} {signed : Bool} (width_le : width ≤ 64) :
    coerceToType (BitVec.ofInt 64 x) width signed = BitVec.ofInt width x :=
  MachineInt.resize_ofInt width_le

/-- Zero and minus one are told apart in any width. -/
theorem minus_one_noticed {signed : Bool} (pos : 0 < width) (width_le : width ≤ 64) :
    coerceToType (-1 : BitVec 64) width signed ≠ 0 := by
  have least : (0 : Int) < 2 ^ (width - 1) := by positivity
  have minus_fits : Fits width true (-1) := fits_signed.mpr (by omega)
  have zero_fits : Fits width true 0 := fits_signed.mpr (by omega)
  rw [show (-1 : BitVec 64) = BitVec.ofInt 64 (-1) from rfl, coerceToType_ofInt width_le]
  exact fun vanishes => absurd ((ofInt_inj pos minus_fits zero_fits).mp vanishes) (by decide)

theorem coerceToType_self (bits : BitVec 64) (signed : Bool) :
    coerceToType bits 64 signed = bits := by
  rw [coerceToType, resize_eq_ofInt, ofInt_denote]

/-- The only quotient that is not defined is that of the least integer and minus one in a narrow
type of Turbo. -/
theorem quotient_undefined_iff {nSigned dSigned : Bool} (pos : 0 < width) (width_le : width ≤ 64)
    (iso : turbo = false → width = 64) :
    quotient turbo width n d nSigned dSigned = .undefined ↔
      turbo = true ∧ width < 64 ∧ n = BitVec.intMin 64 ∧ d = -1 := by
  simp only [quotient, emitDivZeroCheck, emitDivOverflowCheck, emitGuard, beq_iff_eq,
    Bool.and_eq_true]
  by_cases vanishes : coerceToType d width dSigned = 0
  · rw [if_pos vanishes]
    refine iff_of_false Outcome.noConfusion ?_
    rintro ⟨_, _, _, rfl⟩
    exact minus_one_noticed pos width_le vanishes
  · have d_ne : d ≠ 0 := by
      rintro rfl
      exact vanishes (coerceToType_ofInt (x := 0) width_le)
    rw [if_neg vanishes]
    by_cases narrow : turbo = true ∧ width < 64
    · rw [if_pos narrow.1, if_pos narrow.2, createSDiv_eq_undefined]
      constructor
      · rintro (zero | least)
        · exact absurd zero d_ne
        · exact ⟨narrow.1, narrow.2, least⟩
      · exact fun least => .inr least.2.2
    · have full : width = 64 := by
        cases turbo with
        | true => exact le_antisymm width_le (not_lt.mp fun lt => narrow ⟨rfl, lt⟩)
        | false => exact iso rfl
      subst full
      refine iff_of_false ?_ fun least => narrow ⟨least.1, least.2.1⟩
      rw [coerceToType_self, coerceToType_self]
      by_cases bad : n = BitVec.intMin 64 ∧ d = -1
      · rw [if_pos bad, if_pos bad, if_neg (lt_irrefl 64)]
        cases turbo with
        | true =>
            rw [if_pos rfl, createSDiv_eq_undefined]
            exact fun undefined => absurd undefined (by rw [bad.1]; decide)
        | false => exact Outcome.noConfusion
      · rw [if_neg bad, if_neg bad, if_neg (lt_irrefl 64), ite_self, createSDiv_eq_undefined]
        exact not_or.mpr ⟨d_ne, bad⟩

/-- The only remainder that is not defined is that of the same two in Turbo. -/
theorem remainder_undefined_iff {dSigned : Bool} (pos : 0 < width) (width_le : width ≤ 64)
    (iso : turbo = false → width = 64) :
    remainder turbo width n d dSigned = .undefined ↔
      turbo = true ∧ n = BitVec.intMin 64 ∧ d = -1 := by
  rw [remainder, emitModDivisorCheck]
  cases turbo with
  | true =>
      simp only [if_true, emitGuard, beq_iff_eq, true_and]
      by_cases vanishes : coerceToType d width dSigned = 0
      · rw [if_pos vanishes]
        refine iff_of_false Outcome.noConfusion ?_
        rintro ⟨_, rfl⟩
        exact minus_one_noticed pos width_le vanishes
      · have d_ne : d ≠ 0 := by
          rintro rfl
          exact vanishes (coerceToType_ofInt (x := 0) width_le)
        rw [if_neg vanishes, CreateSRem]
        by_cases bad : n = BitVec.intMin 64 ∧ d = -1
        · rw [if_pos (.inr bad)]
          exact iff_of_true rfl bad
        · rw [if_neg (not_or.mpr ⟨d_ne, bad⟩)]
          exact iff_of_false Outcome.noConfusion bad
  | false =>
      obtain rfl := iso rfl
      refine iff_of_false ?_ fun least => Bool.false_ne_true least.1
      rw [if_neg Bool.false_ne_true, emitGuard, coerceToType_self]
      split
      · exact Outcome.noConfusion
      · rename_i positive
        have good : ¬(d = 0 ∨ n = BitVec.intMin 64 ∧ d = -1) := by
          rintro (rfl | ⟨_, rfl⟩) <;> exact positive (by decide)
        rw [CreateSRem, if_neg good]
        exact Outcome.noConfusion

end Undefined

/-! ### Whole operations -/

section Operations

variable {turbo : Bool} {σ : Type*}

/-- Every quotient and remainder of two integers that the operator meets is reported where the
dialect has none, and computed elsewhere. -/
theorem division_right (op : DivOp) (left right : IntExpr turbo σ) (memory : σ)
    (left_dialect : OfDialect left) (right_dialect : OfDialect right)
    (kept : left.OperandsKept right memory)
    (meets : op.Meets turbo (left.type.commonIntType right.type).width (left.value memory)
      (right.value memory)) :
    op.Right turbo (left.value memory) (right.value memory) (op.run left right memory) := by
  have width_le := IntType.width_commonIntType_le left.width_type_le right.width_type_le
  have iso (dialect : turbo = false) : (left.type.commonIntType right.type).width = 64 :=
    IntType.width_commonIntType_of_full (width_of_dialect left_dialect dialect)
      (width_of_dialect right_dialect dialect)
  rw [DivOp.run, operand_eq kept meets.dividend, operand_eq kept.symm meets.divisor]
  cases op with
  | div => exact quotient_right width_le iso meets
  | mod => exact remainder_right width_le iso meets

/-- The type of an operation has no fewer bits than those of its operands. -/
theorem le_width_commonIntType {left right : IntType} (left_le : left.width ≤ 64)
    (right_le : right.width ≤ 64) :
    left.width ≤ (left.commonIntType right).width ∧
      right.width ≤ (left.commonIntType right).width := by
  have mixed_le {signed unsigned : Nat} (signed_le : signed ≤ 64) (unsigned_le : unsigned ≤ 64) :
      signed ≤ (IntType.mixed signed unsigned 64).width ∧
        unsigned ≤ (IntType.mixed signed unsigned 64).width := by
    rw [IntType.mixed]
    split
    · exact ⟨le_refl _, by simp only; omega⟩
    · split
      · exact ⟨by simp only; omega, by simp only; omega⟩
      · exact ⟨signed_le, unsigned_le⟩
  rw [IntType.commonIntType]
  split
  · exact ⟨le_max_left _ _, le_max_right _ _⟩
  · split
    · exact mixed_le left_le right_le
    · exact (mixed_le right_le left_le).symm

/-- Integers of their types are met unless one is beyond the signed ones, or they are the two whose
remainder Turbo does not test for. -/
theorem meets_of_holds {op : DivOp} {left right : IntType} {x y : Int} (left_le : left.width ≤ 64)
    (right_rung : right.width ∈ ladder) (x_holds : left.Holds x) (y_holds : right.Holds y)
    (x_fits : Fits 64 true x) (y_fits : Fits 64 true y)
    (apart : turbo = true → op = .mod → ¬(x = -2 ^ 63 ∧ y = -1)) :
    op.Meets turbo (left.commonIntType right).width x y := by
  obtain ⟨right_pos, right_half⟩ := rung_cases right_rung
  obtain ⟨left_wider, right_wider⟩ :=
    @le_width_commonIntType left right left_le (by omega)
  refine ⟨x_fits, y_fits, fun y_ne vanishes => ?_, fun dialect narrow => ?_⟩
  · have zero_holds : Fits (left.commonIntType right).width right.signed 0 := by
      cases right.signed with
      | true => exact fits_signed.mpr ⟨by simp, by positivity⟩
      | false => exact fits_unsigned.mpr ⟨le_refl 0, by positivity⟩
    exact y_ne ((ofInt_inj (right_pos.trans_le right_wider) (y_holds.mono right_wider)
      zero_holds).mp vanishes)
  · rcases narrow with mod | narrow
    · exact apart dialect mod
    · have held := x_holds.mono (show left.width ≤ 63 by omega)
      rintro ⟨rfl, _⟩
      cases signed : left.signed with
      | true =>
          rw [signed] at held
          exact absurd held (by decide)
      | false =>
          rw [signed] at held
          exact absurd held (by decide)

end Operations

/-- A signed variable of 64 bits. -/
def int64 (read : σ → Int) : IntExpr true σ := IntOp.held (.integer 64 true) (by decide) read

theorem division_right_seven :
    DivOp.mod.Right true (-7) 3
      (DivOp.mod.run (int64 Prod.fst) (int64 Prod.snd) ((-7 : Int), (3 : Int))) :=
  division_right .mod (int64 Prod.fst) (int64 Prod.snd) ((-7 : Int), (3 : Int)) (fun _ => rfl)
    (fun _ => rfl) ⟨trivial, .inl rfl, trivial, .inl rfl⟩
    ⟨by decide, by decide, by decide, by decide⟩

/-- Turbo reports nothing for a quotient that is no integer of 64 bits. -/
theorem least_by_minus_one :
    ¬Fits 64 true (Int.tdiv (-2 ^ 63) (-1)) ∧
      DivOp.div.run (int64 Prod.fst) (int64 Prod.snd) ((-2 ^ 63 : Int), (-1 : Int)) =
        .yields (BitVec.ofInt 64 (-2 ^ 63)) := by
  decide

end Division

end Plang.CodeGen
