import Plang.CodeGen.ConstRun

/-!
# What constant expressions mean

The value of a constant expression, and which of its operators the dialect calls an error; what it
is for a folder to agree with the code that is generated, and the condition on each operator under
which it does.
-/

namespace Plang.CodeGen

open Plang.Sema MachineInt

theorem checked_eq_some {range : Nat × Bool} {result v : Int} :
    checked range result = some v ↔
      result = v ∧ Fits 64 true v ∧ (range.1 < 64 → Fits range.1 range.2 v) := by
  rw [checked]
  split
  · rename_i fits
    constructor
    · intro same
      obtain rfl := Option.some.inj same
      exact ⟨rfl, fits⟩
    · rintro ⟨rfl, _⟩
      rfl
  · rename_i outside
    constructor
    · intro same
      cases same
    · rintro ⟨rfl, fits⟩
      exact absurd fits outside

/-! ### Powers -/

/-- A result that a narrow type has is found in 64 bits too. -/
theorem checked_widen {range : Nat × Bool} {result v : Int}
    (found : checked range result = some v) : checked (64, true) result = some v := by
  obtain ⟨same, fits, _⟩ := checked_eq_some.mp found
  exact checked_eq_some.mpr ⟨same, fits, fun narrow => absurd narrow (lt_irrefl 64)⟩

/-- A power that a narrow type has is found in 64 bits, and is the power. -/
theorem powLoop_eq_some {range : Nat × Bool} {result base v : Int} {exp : Nat}
    (fits : Fits 64 true result) (found : powLoop range result base exp = some v) :
    v = result * base ^ exp ∧ Fits 64 true v ∧ powLoop (64, true) result base exp = some v := by
  induction exp using Nat.strong_induction_on generalizing result base with
  | _ exp induction =>
      rw [powLoop] at found ⊢
      by_cases done : exp = 0
      · rw [if_pos done] at found
        obtain rfl := Option.some.inj found
        rw [if_pos done]
        exact ⟨by rw [done, pow_zero, mul_one], fits, rfl⟩
      rw [if_neg done] at found ⊢
      obtain ⟨product, multiplied, found⟩ := Option.bind_eq_some_iff.mp found
      have grown : product = result * base ^ (exp % 2) ∧ Fits 64 true product ∧
          (if exp % 2 = 1 then checked (64, true) (result * base) else some result) =
            some product := by
        split at multiplied
        · rename_i odd
          obtain ⟨same, product_fits, _⟩ := checked_eq_some.mp multiplied
          rw [if_pos odd, odd, pow_one]
          exact ⟨same.symm, product_fits, checked_widen multiplied⟩
        · rename_i even
          obtain rfl := Option.some.inj multiplied
          rw [if_neg even, (by omega : exp % 2 = 0), pow_zero, mul_one]
          exact ⟨rfl, fits, rfl⟩
      obtain ⟨product_eq, product_fits, multiplied⟩ := grown
      rw [multiplied, Option.bind_some]
      split at found
      · rename_i last
        obtain rfl := Option.some.inj found
        rw [if_pos last]
        refine ⟨?_, product_fits, rfl⟩
        rw [product_eq, (by omega : exp % 2 = exp)]
      · rename_i more
        obtain ⟨square, squared, found⟩ := Option.bind_eq_some_iff.mp found
        obtain ⟨power, v_fits, found⟩ := induction (exp / 2) (by omega) product_fits found
        rw [if_neg more, checked_widen squared, Option.bind_some]
        refine ⟨?_, v_fits, found⟩
        obtain ⟨rfl, _⟩ := checked_eq_some.mp squared
        rw [power, product_eq, ← pow_two, ← pow_mul, mul_assoc, ← pow_add, Nat.mod_add_div]

/-! ### What it should be -/

/-- The value of an operator: the sign of a remainder is the dialect's. -/
def ConstOp.value (turbo : Bool) (x y : Int) : ConstOp → Int
  | .plus => x + y
  | .minus => x - y
  | .times => x * y
  | .div => x.tdiv y
  | .mod => if turbo then x.tmod y else x % y
  | .pow => x ^ y.toNat

def OrdinalFn.value (x : Int) : OrdinalFn → Int
  | .abs => if x < 0 then -x else x
  | .sqr => x * x
  | .ord => x
  | .chr => x
  | .odd => if x % 2 = 0 then 0 else 1

/-- The operands that the dialect gives an operator no value for.  In Turbo sums and products may
leave the integers. -/
def ConstOp.IsError (turbo : Bool) (x y : Int) (op : ConstOp) : Prop :=
  (turbo = false ∧ ¬Fits 64 true (op.value turbo x y)) ∨
    match op with
    | .plus => False
    | .minus => False
    | .times => False
    | .div => y = 0
    | .mod => if turbo then y = 0 else y ≤ 0
    | .pow => y < 0 ∨ (x = 0 ∧ y = 0)

/-- Ranges are checked, by a switch in Turbo and always elsewhere. -/
def Checking (turbo checks : Bool) : Prop := turbo = false ∨ checks = true

/-- The value is outside of a range. -/
def Outside (range : Option (Int × Int)) (value : Int) : Prop :=
  match range with
  | some (lo, hi) => ¬(lo ≤ value ∧ value ≤ hi)
  | none => False

def OrdinalFn.IsError (turbo checks : Bool) (x : Int) : OrdinalFn → Prop
  | .abs => turbo = false ∧ ¬Fits 64 true (OrdinalFn.abs.value x)
  | .sqr => turbo = false ∧ ¬Fits 64 true (x * x)
  | .ord => False
  | .chr => Checking turbo checks ∧ Outside (some (0, 255)) x
  | .odd => False

namespace ConstExpr

variable {turbo : Bool}

/-- The value of the expression. -/
def value : ConstExpr turbo → Int
  | .literal value => value.toNat
  | .constant c => c.value
  | .negate e => -e.value
  | .identity e => e.value
  | .binary op left right => op.value turbo left.value right.value
  | .rel op left right => if op.holds left.value right.value then 1 else 0
  | .call fn e => fn.value e.value
  | .walk forward e steps => if forward then e.value + steps.value else e.value - steps.value

/-- Evaluating the expression is an error of the dialect. -/
def Erroneous (checks : Bool) : ConstExpr turbo → Prop
  | .literal _ => False
  | .constant _ => False
  | .negate e => e.Erroneous checks ∨ (turbo = false ∧ ¬Fits 64 true (-e.value))
  | .identity e => e.Erroneous checks
  | .binary op left right =>
      left.Erroneous checks ∨ right.Erroneous checks ∨ op.IsError turbo left.value right.value
  | .rel _ left right => left.Erroneous checks ∨ right.Erroneous checks
  | .call fn e => e.Erroneous checks ∨ fn.IsError turbo checks e.value
  | .walk forward e steps =>
      e.Erroneous checks ∨ steps.Erroneous checks ∨
        (turbo = false ∧ ¬Fits 64 true (walk forward e steps).value) ∨
        (Checking turbo checks ∧ Outside e.type.ordinalRange (walk forward e steps).value)

/-- The checker accepts the operands of every operator. -/
def Accepted : ConstExpr turbo → Prop
  | .literal _ => True
  | .constant _ => True
  | .negate e => e.Accepted ∧ isIntegral e.type = true
  | .identity e => e.Accepted ∧ isIntegral e.type = true
  | .binary op left right =>
      left.Accepted ∧ right.Accepted ∧ isIntegral left.type = true ∧ isIntegral right.type = true ∧
        (op = .pow → turbo = false)
  | .rel _ left right =>
      left.Accepted ∧ right.Accepted ∧ left.type.isAssignCompatible right.type = true
  | .call fn e =>
      e.Accepted ∧ (fn = .abs ∨ fn = .sqr → isIntegral e.type = true)
  | .walk _ e steps => e.Accepted ∧ steps.Accepted ∧ isIntegral steps.type = true

/-- The code generated for the expression computes the value. -/
def Computes (checks : Bool) (e : ConstExpr turbo) (v : Int) : Prop :=
  ∃ bits, e.run checks = some bits ∧ denote e.isSigned bits = v

/-- Where a folder gives a value, the program computes it and stops with no error. -/
def Agrees (checks : Bool) (folder : Folder) (e : ConstExpr turbo) : Prop :=
  ∀ v, folder.fold e = some v → e.Computes checks v ∧ ¬e.Erroneous checks

/-- The property holds of the expression and of every expression in it. -/
def Throughout (property : ConstExpr turbo → Prop) : ConstExpr turbo → Prop
  | .literal value => property (.literal value)
  | .constant c => property (.constant c)
  | .negate e => property (.negate e) ∧ e.Throughout property
  | .identity e => property (.identity e) ∧ e.Throughout property
  | .binary op left right =>
      property (.binary op left right) ∧ left.Throughout property ∧ right.Throughout property
  | .rel op left right =>
      property (.rel op left right) ∧ left.Throughout property ∧ right.Throughout property
  | .call fn e => property (.call fn e) ∧ e.Throughout property
  | .walk forward e steps =>
      property (.walk forward e steps) ∧ e.Throughout property ∧ steps.Throughout property

end ConstExpr

/-- The divisors that a division or a remainder, in a type of this width, is folded and computed
alike for: a divisor must not vanish in that width, a remainder must be one that the dialect has and
have the sign that it has there; and zero has no power zero. -/
def ConstOp.Meets (turbo : Bool) (width : Nat) (x y : Int) : ConstOp → Prop
  | .plus => True
  | .minus => True
  | .times => True
  | .div => BitVec.ofInt width y ≠ 0
  | .mod => if turbo then BitVec.ofInt width y ≠ 0 ∧ (0 ≤ x ∨ y ∣ x) else 0 < y
  | .pow => ¬(x = 0 ∧ y = 0)

namespace ConstExpr

variable {turbo : Bool}

/-- The condition on one operator: the value of the operator is one of the bits that it is emitted
in, as its type reads them; the operands of a division, a remainder or a power are as above; and what
`chr`, `succ` and `pred` give is in the range of their type. -/
def Meets (checks : Bool) : ConstExpr turbo → Prop
  | .literal _ => True
  | .constant _ => True
  | .negate e => Fits e.llvmWidth e.isSigned (-e.value)
  | .identity _ => True
  | .binary op left right =>
      Fits 64 (binary op left right).isSigned (binary op left right).value ∧
        op.Meets turbo ((binary op left right).type.storage turbo).1 left.value right.value
  | .rel _ _ _ => True
  | .call fn e =>
      match fn with
      | .abs => Fits (call .abs e).llvmWidth (call .abs e).isSigned (call .abs e).value
      | .sqr => Fits (call .sqr e).llvmWidth (call .sqr e).isSigned (call .sqr e).value
      | .ord => Fits e.llvmWidth (isLooseBool e.type || e.isSigned) e.value
      | .chr => Fits 8 false e.value
      | .odd => True
  | .walk forward e steps =>
      Fits e.llvmWidth e.isSigned (walk forward e steps).value ∧
        (Checking turbo checks → ¬Outside e.type.ordinalRange (walk forward e steps).value)

section Equations

variable (checks : Bool) (e left right steps : ConstExpr turbo)

theorem value_negate : (negate e).value = -e.value := rfl

theorem value_binary (op : ConstOp) :
    (binary op left right).value = op.value turbo left.value right.value := rfl

theorem value_call (fn : OrdinalFn) : (call fn e).value = fn.value e.value := rfl

theorem value_walk (forward : Bool) :
    (walk forward e steps).value =
      if forward then e.value + steps.value else e.value - steps.value := rfl

theorem erroneous_negate_iff :
    (negate e).Erroneous checks ↔
      e.Erroneous checks ∨ (turbo = false ∧ ¬Fits 64 true (-e.value)) := Iff.rfl

theorem erroneous_binary_iff (op : ConstOp) :
    (binary op left right).Erroneous checks ↔
      left.Erroneous checks ∨ right.Erroneous checks ∨
        op.IsError turbo left.value right.value := Iff.rfl

theorem erroneous_call_iff (fn : OrdinalFn) :
    (call fn e).Erroneous checks ↔
      e.Erroneous checks ∨ fn.IsError turbo checks e.value := Iff.rfl

theorem erroneous_walk_iff (forward : Bool) :
    (walk forward e steps).Erroneous checks ↔
      e.Erroneous checks ∨ steps.Erroneous checks ∨
        (turbo = false ∧ ¬Fits 64 true (walk forward e steps).value) ∨
        (Checking turbo checks ∧
          Outside e.type.ordinalRange (walk forward e steps).value) := Iff.rfl

theorem meets_negate : (negate e).Meets checks ↔ Fits e.llvmWidth e.isSigned (-e.value) := Iff.rfl

theorem meets_binary (op : ConstOp) :
    (binary op left right).Meets checks ↔
      Fits 64 (binary op left right).isSigned (op.value turbo left.value right.value) ∧
        op.Meets turbo ((binary op left right).type.storage turbo).1 left.value right.value :=
  Iff.rfl

theorem meets_abs :
    (call .abs e).Meets checks ↔
      Fits (call .abs e).llvmWidth (call .abs e).isSigned (OrdinalFn.abs.value e.value) := Iff.rfl

theorem meets_sqr :
    (call .sqr e).Meets checks ↔
      Fits (call .sqr e).llvmWidth (call .sqr e).isSigned (OrdinalFn.sqr.value e.value) := Iff.rfl

theorem meets_ord :
    (call .ord e).Meets checks ↔ Fits e.llvmWidth (isLooseBool e.type || e.isSigned) e.value :=
  Iff.rfl

theorem meets_chr : (call .chr e).Meets checks ↔ Fits 8 false e.value := Iff.rfl

theorem meets_walk (forward : Bool) :
    (walk forward e steps).Meets checks ↔
      Fits e.llvmWidth e.isSigned (walk forward e steps).value ∧
        (Checking turbo checks →
          ¬Outside e.type.ordinalRange (walk forward e steps).value) := Iff.rfl

end Equations

/-- The condition on an expression that the checker finds no value for, and the generator's folder
does.  A literal is then taken for a negative integer.  An operator must have one result, in the bits
that it is emitted in, for the values of its operands and for their bits read as signed. -/
def RefoldsSoundly (folder : Folder) : ConstExpr turbo → Prop
  | .literal _ => folder = .constBound
  | .negate e =>
      folder = .constantValueOf → ∀ x y, e.constantValueOf = some x → e.evalConst = some y →
        (checked (foldWidth e.type) (-y)).isSome = true →
          BitVec.ofInt e.llvmWidth (-x) = BitVec.ofInt e.llvmWidth (-y) ∧
            Fits e.llvmWidth e.isSigned (-y) ∧ (turbo = false → Fits 64 true (-e.value))
  | .binary op left right =>
      folder = .constantValueOf → ∀ x y u v w,
        left.constantValueOf = some x → right.constantValueOf = some y →
        left.evalConst = some u → right.evalConst = some v →
        refold (foldWidth (binary op left right).type) op u v = some w →
          op.emit turbo ((binary op left right).type.storage turbo).1 (BitVec.ofInt 64 x)
              (BitVec.ofInt 64 y) (BitVec.ofInt 64 x) (BitVec.ofInt 64 y) =
            some (BitVec.ofInt 64 w) ∧
            Fits 64 (binary op left right).isSigned w ∧
              ¬op.IsError turbo left.value right.value
  | .constant _ => True
  | .identity _ => True
  | .rel _ _ _ => True
  | .call _ _ => True
  | .walk _ _ _ => True

/-- The condition on an expression that is folded. -/
structure FoldsSoundly (checks : Bool) (folder : Folder) (e : ConstExpr turbo) : Prop where
  found : e.constBound.isSome = true → e.Meets checks
  refolded : e.constBound = none → e.RefoldsSoundly folder

end ConstExpr

/-! ### Widths -/

theorem mem_ladder : 8 ∈ ladder ∧ 16 ∈ ladder ∧ 32 ∈ ladder ∧ 64 ∈ ladder := by decide

theorem mem_llvm : 1 ∈ 1 :: ladder ∧ 8 ∈ 1 :: ladder ∧ 32 ∈ 1 :: ladder ∧ 64 ∈ 1 :: ladder := by
  decide

theorem IntType.width_commonIntType_mem {left right : IntType} (left_rung : left.width ∈ ladder)
    (right_rung : right.width ∈ ladder) : (left.commonIntType right).width ∈ ladder := by
  have mixed_mem : ∀ {signed unsigned : Nat}, signed ∈ ladder → unsigned ∈ ladder →
      (mixed signed unsigned 64).width ∈ ladder := by
    intro signed unsigned signed_rung unsigned_rung
    rw [mixed]
    simp only [ladder, List.mem_cons, List.not_mem_nil, or_false] at *
    split
    · exact signed_rung
    · split
      · simp only
        omega
      · exact .inr (.inr (.inr rfl))
  rw [commonIntType]
  split
  · rcases max_choice left.width right.width with same | same
    · simpa only [same] using left_rung
    · simpa only [same] using right_rung
  · split
    · exact mixed_mem left_rung right_rung
    · exact mixed_mem right_rung left_rung

theorem IntType.width_commonIntType_of_full {left right : IntType} (left_full : left.width = 64)
    (right_full : right.width = 64) : (left.commonIntType right).width = 64 := by
  rw [commonIntType]
  split
  · simp only [left_full, right_full, max_self]
  · split <;> simp [mixed, left_full, right_full]

namespace ConstExpr

variable {turbo : Bool}

theorem absSqrType_of_full {type : OrdinalType} (full : (type.storage turbo).1 = 64) :
    ((absSqrType turbo type).storage turbo).1 = 64 := by
  rw [absSqrType, if_neg (by omega), if_neg (by omega)]
  exact full

theorem plainType_mem (turbo : Bool) : ((plainType turbo).storage turbo).1 ∈ ladder := by
  cases turbo <;> decide

theorem absSqrType_mem {type : OrdinalType} (rung : (type.storage turbo).1 ∈ ladder) :
    ((absSqrType turbo type).storage turbo).1 ∈ ladder := by
  rw [absSqrType]
  split
  · exact mem_ladder.2.2.1
  · split
    · exact mem_ladder.2.2.2
    · exact rung

theorem absSqrTargetIntTy_mem {width : Nat} (rung : width ∈ ladder) (signed : Bool) :
    absSqrTargetIntTy width signed ∈ 1 :: ladder := by
  rw [absSqrTargetIntTy]
  split
  · exact mem_llvm.2.2.1
  · split
    · exact mem_llvm.2.2.2
    · exact List.mem_cons_of_mem 1 rung

theorem type_mem (e : ConstExpr turbo) : (e.type.storage turbo).1 ∈ ladder := by
  induction e with
  | literal value =>
      rw [type]
      split
      · exact mem_ladder.2.2.2
      · exact plainType_mem turbo
  | constant c => exact c.declared
  | negate e induction => exact induction
  | identity e induction => exact induction
  | binary op left right left_induction right_induction =>
      have common := @IntType.width_commonIntType_mem (.ofOrdinal turbo left.type)
        (.ofOrdinal turbo right.type) left_induction right_induction
      cases op with
      | pow => exact plainType_mem turbo
      | plus => exact common
      | minus => exact common
      | times => exact common
      | div => exact common
      | mod => exact common
  | rel op left right => exact mem_ladder.1
  | call fn e induction =>
      cases fn with
      | abs => exact absSqrType_mem induction
      | sqr => exact absSqrType_mem induction
      | ord => exact plainType_mem turbo
      | chr => exact mem_ladder.1
      | odd => exact mem_ladder.1
  | walk forward e steps induction => exact induction

theorem llvmWidth_mem (e : ConstExpr turbo) : e.llvmWidth ∈ 1 :: ladder := by
  induction e with
  | literal value => exact mem_llvm.2.2.2
  | constant c => exact c.emitted
  | negate e induction => exact induction
  | identity e induction => exact induction
  | binary op left right => exact mem_llvm.2.2.2
  | rel op left right => exact mem_llvm.1
  | call fn e =>
      cases fn with
      | abs => exact absSqrTargetIntTy_mem e.type_mem _
      | sqr => exact absSqrTargetIntTy_mem e.type_mem _
      | ord => exact mem_llvm.2.2.2
      | chr => exact mem_llvm.2.1
      | odd => exact mem_llvm.1
  | walk forward e steps induction => exact induction

theorem llvmWidth_pos (e : ConstExpr turbo) : 0 < e.llvmWidth := (llvm_cases e.llvmWidth_mem).1

theorem llvmWidth_le (e : ConstExpr turbo) : e.llvmWidth ≤ 64 := by
  have cases := llvm_cases e.llvmWidth_mem
  omega

/-- The integers of any dialect but Turbo have 64 bits. -/
theorem width_of_integral {e : ConstExpr turbo} (accepted : e.Accepted) (dialect : turbo = false)
    (integral : isIntegral e.type = true) : (e.type.storage turbo).1 = 64 := by
  subst dialect
  induction e with
  | literal value =>
      rw [type]
      split <;> rfl
  | constant c => exact congrArg Prod.fst (c.plain rfl integral)
  | negate e induction => exact induction accepted.1 accepted.2
  | identity e induction => exact induction accepted.1 accepted.2
  | binary op left right left_induction right_induction =>
      obtain ⟨left_accepted, right_accepted, left_integral, right_integral, _⟩ := accepted
      have common := @IntType.width_commonIntType_of_full (.ofOrdinal false left.type)
        (.ofOrdinal false right.type) (left_induction left_accepted left_integral)
        (right_induction right_accepted right_integral)
      cases op with
      | pow => rfl
      | plus => exact common
      | minus => exact common
      | times => exact common
      | div => exact common
      | mod => exact common
  | rel op left right => cases integral
  | call fn e induction =>
      cases fn with
      | abs => exact absSqrType_of_full (induction accepted.1 (accepted.2 (.inl rfl)))
      | sqr => exact absSqrType_of_full (induction accepted.1 (accepted.2 (.inr rfl)))
      | ord => rfl
      | chr => cases integral
      | odd => cases integral
  | walk forward e steps induction => exact induction accepted.1 integral

end ConstExpr

end Plang.CodeGen
