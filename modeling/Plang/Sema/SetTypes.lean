import Plang.Sema.OrdinalType

/-!
# Set types

Which types may be the base of a set, where the bits of a set begin, and the type that the checker
gives to an operator on two sets.
-/

namespace Plang.Sema

/-- How many values a set has room for. -/
def maxSetElements : Int := 256

/-- The ordinal that the lowest bit of a set stands for. -/
def setBaseOffset (base : OrdinalType) : Int :=
  match base with
  | .subrange _ lo _ => if lo < 0 then lo else 0
  | .integer _ _ => 0
  | .boolean => 0
  | .looseBoolean _ => 0
  | .char => 0
  | .enum _ _ => 0

/-- Whether the type may be the base of a set. -/
def checkSetBaseRange (turbo : Bool) (base : OrdinalType) : Bool :=
  match base with
  | .boolean => true
  | .looseBoolean _ => false
  | .char => true
  | .enum _ last => decide ((last : Int) - setBaseOffset base < maxSetElements)
  | .subrange _ lo hi =>
      if lo > hi then true
      else if turbo && decide (lo < 0) then false
      else decide (hi - setBaseOffset base < maxSetElements)
  | .integer width signed =>
      if signed then false
      else
        match (OrdinalType.integer width signed).ordinalRange with
        | none => false
        | some (_, hi) => decide (hi - setBaseOffset base < maxSetElements)

/-- The operators on sets. -/
inductive SetOp where
  | plus
  | minus
  | times
  | symDiff
  | equal
  | notEqual
  | lessThanOrEqual
  | greaterThanOrEqual
  deriving DecidableEq, Repr

/-- Whether the operator answers a truth value. -/
def SetOp.isRelational : SetOp → Bool
  | .equal | .notEqual | .lessThanOrEqual | .greaterThanOrEqual => true
  | .plus | .minus | .times | .symDiff => false

/-- An operand: its base type, and whether it is a set-constructor or made of such only. -/
structure SetOperand where
  base : OrdinalType
  loose : Bool
  deriving DecidableEq, Repr

/-- A set-constructor takes its type from an operand that has one. -/
def unifyLooseSets (left right : SetOperand) : SetOperand × SetOperand :=
  if left.loose = right.loose then (left, right)
  else if left.loose then ({ left with base := right.base }, right)
  else (left, { right with base := left.base })

/-- The base that a subrange spanning two bases is cut out of. -/
def widenedHost (base : OrdinalType) : OrdinalType :=
  match base with
  | .subrange type _ _ => type
  | .integer width signed => .integer width signed
  | .boolean => .boolean
  | .looseBoolean width => .looseBoolean width
  | .char => .char
  | .enum decl last => .enum decl last

/-- The base of a union: that of an operand where its range contains the other one, else a subrange
that spans both. -/
def widenSetResult (left right : OrdinalType) : OrdinalType :=
  match left.ordinalRange, right.ordinalRange with
  | some (leftLo, leftHi), some (rightLo, rightHi) =>
      if leftLo ≤ rightLo ∧ rightHi ≤ leftHi then left
      else if rightLo ≤ leftLo ∧ leftHi ≤ rightHi then right
      else .subrange (widenedHost left) (min leftLo rightLo) (max leftHi rightHi)
  | none, _ => left
  | some _, none => left

/-- The base of the type that the checker gives to an operator on sets. -/
def setResult (op : SetOp) (left right : SetOperand) : OrdinalType :=
  match op with
  | .plus | .symDiff => widenSetResult left.base right.base
  | .minus | .times => if left.loose then right.base else left.base
  | .equal | .notEqual | .lessThanOrEqual | .greaterThanOrEqual => left.base

/-- Whether the checker accepts the operator on these bases. -/
def acceptsSets (op : SetOp) (left right : SetOperand) : Bool :=
  match op with
  | .plus | .minus | .times => left.base.isAssignCompatible right.base
  | .symDiff | .equal | .notEqual | .lessThanOrEqual | .greaterThanOrEqual => true

end Plang.Sema
