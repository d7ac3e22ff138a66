import Plang.CodeGen.StructuredValue
import Plang.Library.MachineInt

/-!
# Typed constants

The static initialisers that the generator folds Turbo's typed constants into: the arms of an array
by their positions, those of a record by the names of its fields.
-/

namespace Plang.CodeGen.TypedConst

open Plang.Sema.Storage RecordTypes StructuredValue Writes

/-- Constants of the target. -/
inductive Constant where
  | null (ty : LType)
  | int (bits : Nat) (value : BitVec bits)
  | fp (ty : LType) (value : UInt64)
  | array (count : Nat) (elems : Nat → Constant)
  | struct (count : Nat) (elems : Nat → Constant)

/-- A value that the checker has folded: an ordinal, or a real by its bits. -/
structure Folded where
  ConstVal : Option Int64
  ConstRealVal : Option UInt64

/-- The types of the elements of a record's structure. -/
def elements (dl : DataLayout) (packed : Bool) (fields : Fields) (variant : Variant) : List LType :=
  Fields.lower dl fields ++ Variant.lower dl packed variant

/-- The place and the type that a name has in the layout. -/
def findPlace (dl : DataLayout) (packed : Bool) (fields : Fields) (variant : Variant)
    (name : Text) : Option (FieldPlace × Ty) :=
  ((Fields.places fields 0 ++ Variant.places dl packed (Fields.length fields) variant).zip
    (fieldTypes fields ++ variantTypes variant)).find?
      fun entry => toLower entry.1.name == toLower name

section Level

-- `value k denoter ty` is the initialiser of arm `k`, folded for a denoter and its storage.
variable (dl : DataLayout) (value : Nat → Option Ty → LType → Except Stop Constant)

/-- An arm behind the last element is passed over. -/
def initElement (count : Nat) (elem : Ty) (elemTy : LType) (elems : Nat → Constant)
    (arm : Arm × Nat) : Except Stop (Nat → Constant) :=
  if arm.2 < count then do
    let folded ← value arm.2 (some elem) elemTy
    return put arm.2 1 (fun _ => folded) elems
  else
    .ok elems

/-- The field that an arm is for, if it is for one: its element, and its type. -/
def fieldOf (packed : Bool) (fields : Fields) (variant : Variant) (arm : Arm) :
    Option (Text × Nat × Ty) :=
  match arm.labels with
  | .expr (some name) _ :: _ =>
      match findPlace dl packed fields variant name with
      | some (place, ty) =>
          if (elements dl packed fields variant).length ≤ place.index ∨ place.inVariant = true then
            none
          else some (name, place.index, ty)
      | none => none
  | _ => none

def initField (packed : Bool) (fields : Fields) (variant : Variant) (elems : Nat → Constant)
    (arm : Arm × Nat) : Except Stop (Nat → Constant) :=
  match fieldOf dl packed fields variant arm.1 with
  | some (name, element, ty) => do
      let folded ← value arm.2 (inSections name fields) (Ty.lower dl ty)
      return put element 1 (fun _ => folded) elems
  | none => .ok elems

def initArms (kind : TypeKind) (arms : List Arm) (shape : Option Ty) (ty : LType) :
    Except Stop Constant :=
  match kind, shape with
  | .array, some (.array _ elem) =>
      match ty with
      | .array count elemTy =>
          (arms.zipIdx.foldlM (initElement value count elem elemTy) fun _ => .null elemTy).map
            (Constant.array count)
      | _ => .error (.codegenICE
          "typed constant array initializer's storage is not an LLVM array type")
  | .array, _ => .error (.codegenICE
      "typed constant array initializer has no array declaration to take its element type from")
  | .record, some (.record packed fields variant) =>
      let types := elements dl packed fields variant
      (arms.zipIdx.foldlM (initField dl value packed fields variant)
        fun element => .null (types.getD element .ptr)).map (Constant.struct types.length)
  | .record, _ => .error (.codegenICE
      "typed constant record initializer has no record declaration to take its fields from")

end Level

/-- A scalar that the checker folded. -/
def initScalar (value : Folded) (ty : LType) : Except Stop Constant :=
  match value.ConstVal, value.ConstRealVal with
  | some ordinal, _ =>
      match ty with
      | .int bits => .ok (.int bits (BitVec.ofInt bits ordinal.toInt))
      | _ => .error (.codegenICE
          "typed constant scalar initializer folded to an integer but its declared storage is not one")
  | none, some real => .ok (.fp ty real)
  | none, none => .error (.codegenICE ("typed constant initializer did not fold, though Sema's " ++
      "checkTypedConstFoldable was meant to have already refused one that does not"))

mutual

def buildTypedConstInit (dl : DataLayout) : Value Folded → Option Ty → LType → Except Stop Constant
  | .expr e, _, ty => initScalar e ty
  | .structured kind arms, denoter, ty =>
      initArms dl (fun k => armInit dl arms k) kind arms.heads denoter ty

/-- The initialiser of an arm. -/
def armInit (dl : DataLayout) : Arms Folded → Nat → Option Ty → LType → Except Stop Constant
  | .nil, _, _, ty => .ok (.null ty)
  | .cons _ value _, 0, denoter, ty => buildTypedConstInit dl value denoter ty
  | .cons _ _ rest, k + 1, denoter, ty => armInit dl rest k denoter ty

end

end Plang.CodeGen.TypedConst
