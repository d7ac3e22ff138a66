import Plang.CodeGen.IntegerOps

/-!
# Constant expressions and their folders

The checker folds a constant expression in 64 bits, as far as the result has a place in the type of
the expression, and records what it found; the generator takes that value where there is one, and
has folders of its own for the rest.
-/

namespace Plang.CodeGen

open Plang.Sema MachineInt

/-- The operators of two operands that are folded. -/
inductive ConstOp where
  | plus
  | minus
  | times
  | div
  | mod
  | pow
  deriving DecidableEq, Repr

/-- The required functions of one argument that are folded. -/
inductive OrdinalFn where
  | abs
  | sqr
  | ord
  | chr
  | odd
  deriving DecidableEq, Repr

/-- The type is one of integers. -/
def isIntegral (type : OrdinalType) : Bool :=
  match type.host with
  | .integer _ _ => true
  | _ => false

/-- A name for a value, which a variable of its type can hold: the integers of any dialect but Turbo
have 64 bits. -/
structure Constant (turbo : Bool) where
  type : OrdinalType
  declared : (type.storage turbo).1 ∈ ladder
  value : Int
  int64 : Fits 64 true value
  /-- The width it is emitted in. -/
  width : Nat
  emitted : width ∈ 1 :: ladder
  held : Fits width (type.isSigned turbo) value
  plain : turbo = false → isIntegral type = true → type.storage turbo = (64, true)

inductive ConstExpr (turbo : Bool) where
  /-- A literal below `2 ^ 64`. -/
  | literal (value : BitVec 64)
  | constant (constant : Constant turbo)
  | negate (e : ConstExpr turbo)
  | identity (e : ConstExpr turbo)
  | binary (op : ConstOp) (left right : ConstExpr turbo)
  | rel (op : RelOp) (left right : ConstExpr turbo)
  | call (fn : OrdinalFn) (e : ConstExpr turbo)
  /-- `succ` or `pred`.  The form with one argument is the one with the step 1. -/
  | walk (forward : Bool) (e steps : ConstExpr turbo)

namespace ConstExpr

variable {turbo : Bool}

def plainType (turbo : Bool) : OrdinalType := .integer (OrdinalType.defaultIntWidth turbo) true

/-- The type of `abs` and `sqr` of an integer. -/
def absSqrType (turbo : Bool) (type : OrdinalType) : OrdinalType :=
  if (type.storage turbo).1 < 32 then .integer 32 true
  else if (type.storage turbo).1 = 32 ∧ (type.storage turbo).2 = false then .integer 64 false
  else type

/-- The width that `abs` and `sqr` of an integer are emitted in. -/
def absSqrTargetIntTy (width : Nat) (signed : Bool) : Nat :=
  if width < 32 then 32 else if width = 32 ∧ signed = false then 64 else width

def type : ConstExpr turbo → OrdinalType
  | .literal value => if value.msb then .integer 64 false else plainType turbo
  | .constant c => c.type
  | .negate e => e.type
  | .identity e => e.type
  | .binary op left right =>
      let common := (IntType.ofOrdinal turbo left.type).commonIntType (.ofOrdinal turbo right.type)
      match op with
      | .pow => plainType turbo
      | _ => .integer common.width common.signed
  | .rel _ _ _ => .boolean
  | .call fn e =>
      match fn with
      | .abs => absSqrType turbo e.type
      | .sqr => absSqrType turbo e.type
      | .ord => plainType turbo
      | .chr => .char
      | .odd => .boolean
  | .walk _ e _ => e.type

/-- Whether the values of the expression are read as signed. -/
def isSigned (e : ConstExpr turbo) : Bool := e.type.isSigned turbo

/-- The width that the expression is emitted in. -/
def llvmWidth : ConstExpr turbo → Nat
  | .literal _ => 64
  | .constant c => c.width
  | .negate e => e.llvmWidth
  | .identity e => e.llvmWidth
  | .binary _ _ _ => 64
  | .rel _ _ _ => 1
  | .call fn e =>
      match fn with
      | .abs => absSqrTargetIntTy (e.type.storage turbo).1 e.isSigned
      | .sqr => absSqrTargetIntTy (e.type.storage turbo).1 e.isSigned
      | .ord => 64
      | .chr => 8
      | .odd => 1
  | .walk _ e _ => e.llvmWidth

end ConstExpr

/-! ### Checked arithmetic -/

/-- The width and signedness that a fold has to respect: that of an integer type, and 64 signed bits
for anything else. -/
def foldWidth : OrdinalType → Nat × Bool
  | .integer width signed => (width, signed)
  | .boolean => (64, true)
  | .looseBoolean _ => (64, true)
  | .char => (64, true)
  | .enum _ _ => (64, true)
  | .subrange _ _ _ => (64, true)

/-- A result, as long as 64 bits and a narrower type have it. -/
def checked (range : Nat × Bool) (result : Int) : Option Int :=
  if Fits 64 true result ∧ (range.1 < 64 → Fits range.1 range.2 result) then some result else none

/-- The remainder that is never negative. -/
def isoMod (i j : Int) : Int :=
  let r := i.tmod j
  if r < 0 then r + (if j < 0 then -j else j) else r

def divOverflows (i j : Int) : Bool := j = -1 ∧ i = -2 ^ 63

/-- The loop of a power: every product is checked, and the last square is not taken. -/
def powLoop (range : Nat × Bool) (result base : Int) (exp : Nat) : Option Int :=
  if exp = 0 then some result
  else
    (if exp % 2 = 1 then checked range (result * base) else some result).bind fun result =>
      if exp / 2 = 0 then some result
      else (checked range (base * base)).bind fun base => powLoop range result base (exp / 2)
termination_by exp

def isoPow (range : Nat × Bool) (base exp : Int) : Option Int := powLoop range 1 base exp.toNat

/-- The value that a folder gives to an operator on two values. -/
def ConstOp.fold (range : Nat × Bool) (x y : Int) : ConstOp → Option Int
  | .plus => checked range (x + y)
  | .minus => checked range (x - y)
  | .times => checked range (x * y)
  | .div => if y ≠ 0 ∧ divOverflows x y = false then some (x.tdiv y) else none
  | .mod => if y ≠ 0 ∧ divOverflows x y = false then some (isoMod x y) else none
  | .pow => if 0 ≤ y then isoPow range x y else none

/-- The value that a folder gives to a function of one value. -/
def OrdinalFn.fold (range : Nat × Bool) (x : Int) : OrdinalFn → Option Int
  | .abs => if x < 0 then checked range (-x) else some x
  | .sqr => checked range (x * x)
  | .ord => some x
  | .chr => some x
  | .odd => some (if x % 2 = 0 then 0 else 1)

namespace ConstExpr

variable {turbo : Bool}

/-! ### Folders -/

/-- The checker's folder. -/
def constBound : ConstExpr turbo → Option Int
  | .literal value => if value.msb then none else some value.toNat
  | .constant c => some c.value
  | .negate e => e.constBound.bind fun x => checked (foldWidth e.type) (-x)
  | .identity e => e.constBound
  | .binary op left right =>
      left.constBound.bind fun x => right.constBound.bind fun y =>
        op.fold (foldWidth (binary op left right).type) x y
  | .rel _ _ _ => none
  | .call fn e => e.constBound.bind fun x => fn.fold (foldWidth (call fn e).type) x
  | .walk forward e steps =>
      e.constBound.bind fun x => steps.constBound.bind fun k =>
        checked (foldWidth e.type) (if forward then x + k else x - k)

/-- The value that the generator folds two values to: it has no powers. -/
def refold (range : Nat × Bool) (op : ConstOp) (x y : Int) : Option Int :=
  match op with
  | .plus => op.fold range x y
  | .minus => op.fold range x y
  | .times => op.fold range x y
  | .div => op.fold range x y
  | .mod => op.fold range x y
  | .pow => none

/-- The generator's folder of bounds, labels and extents: what the checker has recorded comes
first, and a literal is taken as its bits are. -/
def tryEvalConstInt (e : ConstExpr turbo) : Option Int :=
  match e.constBound with
  | some v => some v
  | none =>
      match e with
      | .literal value => some value.toInt
      | .constant c => some c.value
      | .negate e => e.tryEvalConstInt.bind fun x => checked (foldWidth e.type) (-x)
      | .identity e => e.tryEvalConstInt
      | .binary op left right =>
          left.tryEvalConstInt.bind fun x => right.tryEvalConstInt.bind fun y =>
            refold (foldWidth (binary op left right).type) op x y
      | .rel _ _ _ => none
      | .call _ _ => none
      | .walk _ _ _ => none

/-- The generator's folder of constants: the bits of a name are read as signed. -/
def evalConst : ConstExpr turbo → Option Int
  | .literal value => some value.toInt
  | .constant c => some (BitVec.ofInt c.width c.value).toInt
  | .negate e => e.evalConst.bind fun x => checked (foldWidth e.type) (-x)
  | .identity _ => none
  | .binary op left right =>
      left.evalConst.bind fun x => right.evalConst.bind fun y =>
        refold (foldWidth (binary op left right).type) op x y
  | .rel _ _ _ => none
  | .call _ _ => none
  | .walk _ _ _ => none

/-- The value of a constant that is defined by the expression: what the checker has recorded comes
first. -/
def constantValueOf (e : ConstExpr turbo) : Option Int :=
  match e.constBound with
  | some v => some v
  | none => e.evalConst

end ConstExpr

/-- The folders. -/
inductive Folder where
  | constBound
  | tryEvalConstInt
  | constantValueOf
  deriving DecidableEq, Repr

def Folder.fold {turbo : Bool} (folder : Folder) (e : ConstExpr turbo) : Option Int :=
  match folder with
  | .constBound => e.constBound
  | .tryEvalConstInt => e.tryEvalConstInt
  | .constantValueOf => e.constantValueOf

namespace ConstExpr

variable {turbo : Bool}

/-- No literal in the expression exceeds 64 signed bits. -/
def SmallLiterals : ConstExpr turbo → Prop
  | .literal value => value.msb = false
  | .constant _ => True
  | .negate e => e.SmallLiterals
  | .identity e => e.SmallLiterals
  | .binary _ left right => left.SmallLiterals ∧ right.SmallLiterals
  | .rel _ left right => left.SmallLiterals ∧ right.SmallLiterals
  | .call _ e => e.SmallLiterals
  | .walk _ e steps => e.SmallLiterals ∧ steps.SmallLiterals

theorem llvm_cases {w : Nat} (emitted : w ∈ 1 :: ladder) : 0 < w ∧ (w ≤ 32 ∨ w = 64) := by
  simp only [ladder, List.mem_cons, List.not_mem_nil, or_false] at emitted
  omega

theorem refold_eq_some {range : Nat × Bool} {op : ConstOp} {x y v : Int}
    (folded : refold range op x y = some v) : op.fold range x y = some v := by
  cases op with
  | pow => cases folded
  | plus => exact folded
  | minus => exact folded
  | times => exact folded
  | div => exact folded
  | mod => exact folded

/-- The generator's folder of bounds finds nothing that the checker has not found, unless a literal
exceeds 64 signed bits. -/
theorem constBound_of_tryEvalConstInt {e : ConstExpr turbo} (small : e.SmallLiterals) {v : Int}
    (folded : e.tryEvalConstInt = some v) : e.constBound = some v := by
  induction e generalizing v with
  | literal value =>
      have small : value.msb = false := small
      simpa [tryEvalConstInt, constBound, small] using folded
  | constant c => exact folded
  | negate e induction =>
      rw [tryEvalConstInt] at folded
      split at folded
      · rename_i found
        exact found.trans folded
      · obtain ⟨x, operand, folded⟩ := Option.bind_eq_some_iff.mp folded
        rw [constBound, induction small operand]
        exact folded
  | identity e induction =>
      rw [tryEvalConstInt] at folded
      split at folded
      · rename_i found
        exact found.trans folded
      · exact induction small folded
  | binary op left right left_induction right_induction =>
      rw [tryEvalConstInt] at folded
      split at folded
      · rename_i found
        exact found.trans folded
      · obtain ⟨x, left_operand, folded⟩ := Option.bind_eq_some_iff.mp folded
        obtain ⟨y, right_operand, folded⟩ := Option.bind_eq_some_iff.mp folded
        rw [constBound, left_induction small.1 left_operand,
          right_induction small.2 right_operand]
        exact refold_eq_some folded
  | rel op left right => cases folded
  | call fn e =>
      rw [tryEvalConstInt] at folded
      split at folded
      · rename_i found
        exact found.trans folded
      · cases folded
  | walk forward e steps =>
      rw [tryEvalConstInt] at folded
      split at folded
      · rename_i found
        exact found.trans folded
      · cases folded

end ConstExpr

/-- What the checker has found, every folder finds. -/
theorem Folder.fold_of_constBound {turbo : Bool} (folder : Folder) {e : ConstExpr turbo} {v : Int}
    (found : e.constBound = some v) : folder.fold e = some v := by
  cases folder with
  | constBound => exact found
  | tryEvalConstInt => rw [fold, ConstExpr.tryEvalConstInt.eq_def, found]
  | constantValueOf => rw [fold, ConstExpr.constantValueOf, found]

end Plang.CodeGen
