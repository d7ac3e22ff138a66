import Plang.Library.MachineInt

/-!
# Ordinal types

The ordinal types with what the checker and the generator ask about them: their ranges, how wide
and how signed they are stored, and when a value of one may be assigned to another.
-/

namespace Plang.Sema

open MachineInt (minOf maxOf)

/-- The ordinal types. -/
inductive OrdinalType where
  | integer (width : Nat) (signed : Bool)
  | boolean
  /-- The boolean types of Turbo that hold any bits. -/
  | looseBoolean (width : Nat)
  | char
  /-- An enumeration by its declaration, and the ordinal of its last value. -/
  | enum (decl last : Nat)
  | subrange (host : OrdinalType) (lo hi : Int)
  deriving DecidableEq, Repr

namespace OrdinalType

/-- The dialect's plain integers. -/
def defaultIntWidth (turbo : Bool) : Nat := if turbo then 16 else 64

/-- How wide and how signed Turbo stores a range. -/
def narrowestStorage (lo hi : Int) : Nat × Bool :=
  if 0 ≤ lo ∧ hi % 2 ^ 64 ≤ maxOf 8 false then (8, false)
  else if minOf 8 true ≤ lo ∧ hi ≤ maxOf 8 true then (8, true)
  else if 0 ≤ lo ∧ hi % 2 ^ 64 ≤ maxOf 16 false then (16, false)
  else if minOf 16 true ≤ lo ∧ hi ≤ maxOf 16 true then (16, true)
  else if 0 ≤ lo ∧ hi % 2 ^ 64 ≤ maxOf 32 false then (32, false)
  else if minOf 32 true ≤ lo ∧ hi ≤ maxOf 32 true then (32, true)
  else (64, true)

/-- The width of the type, and whether its values are signed. -/
def storage (turbo : Bool) : OrdinalType → Nat × Bool
  | .integer width signed => (width, signed)
  | .boolean => (8, false)
  | .looseBoolean width => (width, false)
  | .char => (8, false)
  | .enum _ last => (if turbo then (narrowestStorage 0 last).1 else 64, false)
  | .subrange host lo hi =>
      match host with
      | .integer width signed => if turbo then narrowestStorage lo hi else (width, signed)
      | .boolean => (if turbo then 8 else defaultIntWidth turbo, false)
      | .looseBoolean width => (if turbo then width else defaultIntWidth turbo, false)
      | .char => (if turbo then 8 else defaultIntWidth turbo, false)
      | .enum _ last =>
          (if turbo then (narrowestStorage 0 last).1 else defaultIntWidth turbo, false)
      | .subrange _ _ _ => (defaultIntWidth turbo, false)

def isSigned (turbo : Bool) (type : OrdinalType) : Bool := (type.storage turbo).2

/-- The bits that a value of the type is held in. -/
def llvmWidth (turbo : Bool) (type : OrdinalType) : Nat :=
  match type with
  | .boolean => 1
  | .char => 8
  | .integer _ _ => (type.storage turbo).1
  | .looseBoolean _ => (type.storage turbo).1
  | .enum _ _ => (type.storage turbo).1
  | .subrange _ _ _ => (type.storage turbo).1

/-- The first and last values, or nothing when there is no bounded range. -/
def ordinalRange : OrdinalType → Option (Int × Int)
  | .boolean => some (0, 1)
  | .looseBoolean _ => none
  | .char => some (0, 255)
  | .subrange _ lo hi => some (lo, hi)
  | .enum _ last => some (0, last)
  | .integer width signed =>
      if 64 ≤ width then none else some (minOf width signed, maxOf width signed)

/-- The type that a subrange is cut out of, through any number of subranges. -/
def host : OrdinalType → OrdinalType
  | .subrange type _ _ => type.host
  | .integer width signed => .integer width signed
  | .boolean => .boolean
  | .looseBoolean width => .looseBoolean width
  | .char => .char
  | .enum decl last => .enum decl last

/-- Whether a value of the second type may be assigned to the first: enumerations go by their
declaration, subranges by their hosts. -/
def isAssignCompatible (dst src : OrdinalType) : Bool :=
  match dst.host, src.host with
  | .integer _ _, .integer _ _ => true
  | .boolean, .boolean => true
  | .boolean, .looseBoolean _ => true
  | .looseBoolean _, .boolean => true
  | .looseBoolean _, .looseBoolean _ => true
  | .char, .char => true
  | .enum dst _, .enum src _ => dst == src
  | _, _ => false

end OrdinalType

end Plang.Sema
