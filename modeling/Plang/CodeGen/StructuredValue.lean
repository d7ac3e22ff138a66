import Plang.CodeGen.RecordTypes
import Plang.Library.Writes

/-!
# Structured values

What the generator emits for array and record constructors: an image that begins with zeros, and the
stores that the arms are lowered to.  A component that is a structured value without a type name is
emitted for the denoter that its place is declared with; an expression is copied from where it stands,
or stored as the register that it is coerced to.
-/

namespace Plang.CodeGen.StructuredValue

open Plang.Sema.Storage StructLayout RecordTypes Writes

/-! ### Constructors -/

/-- A label: what the ends of a range fold to; the name that any other one is, if it is a name, and
what it folds to. -/
inductive Label where
  | range (low high : Option Int64)
  | expr (ident : Option Text) (folded : Option Int64)

/-- An arm, without its value. -/
structure Arm where
  labels : List Label
  isOtherwise : Bool

/-- The types that constructors are resolved to here. -/
inductive TypeKind where
  | array
  | record
  deriving DecidableEq, Repr

mutual

/-- The value of an arm: a structured value that names no type, or an expression. -/
inductive Value (ε : Type) where
  | expr (e : ε)
  | structured (kind : TypeKind) (arms : Arms ε)

inductive Arms (ε : Type) where
  | nil
  | cons (arm : Arm) (value : Value ε) (rest : Arms ε)

end

def Arms.heads {ε : Type} : Arms ε → List Arm
  | .nil => []
  | .cons arm _ rest => arm :: rest.heads

/-! ### Denoters of fields -/

/-- A name declared in a list of fields. -/
def inSections (name : Text) : Fields → Option Ty
  | .nil => none
  | .cons field ty rest => if toLower field = toLower name then some ty else inSections name rest

def inCases (name : Text) : Cases → Option Ty
  | .nil => none
  | .cons fields _ rest => (inSections name fields).or (inCases name rest)

mutual

/-- The alternatives of a variant part, and then the first variant part inside them. -/
def inVariant (name : Text) : Variant → Option Ty
  | .absent => none
  | .tagged _ _ cases => (inCases name cases).or (inNext name cases)
  | .tagless cases => (inCases name cases).or (inNext name cases)

def inNext (name : Text) : Cases → Option Ty
  | .nil => none
  | .cons _ .absent rest => inNext name rest
  | .cons _ nested _ => inVariant name nested

end

/-- The denoter written for a field: neither tags nor a second variant part of a level are looked
at. -/
def fieldDenoter (fields : Fields) (variant : Variant) (name : Text) : Option Ty :=
  (inSections name fields).or (inVariant name variant)

/-! ### Places of fields -/

/-- The types of the fields, in the order of their places. -/
def fieldTypes : Fields → List Ty
  | .nil => []
  | .cons _ ty rest => ty :: fieldTypes rest

mutual

def variantTypes : Variant → List Ty
  | .absent => []
  | .tagged _ tagType cases => tagType :: casesTypes cases
  | .tagless cases => casesTypes cases

def casesTypes : Cases → List Ty
  | .nil => []
  | .cons fields nested rest => fieldTypes fields ++ (variantTypes nested ++ casesTypes rest)

end

/-- The fields of a layout: name, offset unless the structure has no such element, and type. -/
def layoutFields (dl : DataLayout) (packed : Bool) (fields : Fields) (variant : Variant) :
    List ((Text × Option Nat) × Ty) :=
  (fieldOffsets dl packed fields variant).zip (fieldTypes fields ++ variantTypes variant)

/-- The offset and the type that a name has in the layout. -/
def findField (dl : DataLayout) (packed : Bool) (fields : Fields) (variant : Variant)
    (name : Text) : Option (Option Nat × Ty) :=
  ((layoutFields dl packed fields variant).find? fun entry => toLower entry.1.1 == toLower name).map
    fun entry => (entry.1.2, entry.2)

/-! ### Emission -/

/-- Why nothing is emitted. -/
inductive Stop where
  | codegenICE (text : String)
  /-- A loop takes more steps than it was given. -/
  | steps
  deriving DecidableEq, Repr

/-- The bytes of a value. -/
abbrev Image := Nat → UInt8

def firstIndex (index : IndexRange) : Int64 := Int64.ofInt index.lo

def lastIndex (index : IndexRange) : Int64 := Int64.ofInt index.hi

/-- The bytes that a value of a type is allocated. -/
def allocSize (dl : DataLayout) (ty : Ty) : Nat := ((Ty.lower dl ty).shape dl).size

/-- The counter of `for (int64_t i = lo; i <= hi; ++i)`, step by step. -/
def loop : Nat → Int64 → Int64 → Except Stop (List Int64)
  | steps, i, hi =>
      if i ≤ hi then
        match steps with
        | 0 => .error .steps
        | steps + 1 => (loop steps (i + 1) hi).map (i :: ·)
      else
        .ok []

/-! ### Stores -/

/-- The registers that an expression can be emitted as. -/
inductive Register where
  | int (bits : Nat) (value : BitVec bits)
  | float (value : BitVec 32)
  | double (value : BitVec 64)
  /-- A structure, by its bytes. -/
  | struct (size : Nat) (bytes : Image)
  /-- An address, and the bytes from there on. -/
  | ptr (address : BitVec 64) (memory : Image)

/-- The conversions of the target between integers and floating-point numbers, and between these. -/
structure Conversions where
  SIToFP32 : Int → BitVec 32
  SIToFP64 : Int → BitVec 64
  FPToSI32 : (bits : Nat) → BitVec 32 → BitVec bits
  FPToSI64 : (bits : Nat) → BitVec 64 → BitVec bits
  FPExt : BitVec 32 → BitVec 64
  FPTrunc : BitVec 64 → BitVec 32

/-- A register is brought to a type, if there is a conversion: an integer of 1 or 8 bits has no
sign. -/
def coerceToType (target : Conversions) (v : Register) (dst : LType) : Register :=
  match dst, v with
  | .float, .int _ value => .float (target.SIToFP32 value.toInt)
  | .double, .int _ value => .double (target.SIToFP64 value.toInt)
  | .int bits, .float value => .int bits (target.FPToSI32 bits value)
  | .int bits, .double value => .int bits (target.FPToSI64 bits value)
  | .double, .float value => .double (target.FPExt value)
  | .float, .double value => .float (target.FPTrunc value)
  | .int bits, .int width value =>
      .int bits (if width = 8 ∨ width = 1 then value.setWidth bits else value.signExtend bits)
  | _, _ => v

/-- The bytes of a register, the lowest first. -/
def bytesOf {bits : Nat} (value : BitVec bits) : Image := fun cell =>
  .ofBitVec (value.extractLsb' (8 * cell) 8)

/-- Bytes that are stored. -/
structure Stored where
  size : Nat
  bytes : Image

def Register.stored (dl : DataLayout) : Register → Stored
  | .int bits value => ⟨(bits + 7) / 8, bytesOf value⟩
  | .float value => ⟨4, bytesOf value⟩
  | .double value => ⟨8, bytesOf value⟩
  | .struct size bytes => ⟨size, bytes⟩
  | .ptr address _ => ⟨dl.pointerBytes, bytesOf address⟩

def isAggregateType : LType → Bool
  | .array _ _ => true
  | .struct _ _ => true
  | _ => false

/-- An expression as a component of a type: an aggregate is copied from the address, as large as the
type is; anything else is stored as it is coerced. -/
def storeComponent (dl : DataLayout) (target : Conversions) (val : Register) (ty : Ty) : Stored :=
  match isAggregateType (Ty.lower dl ty), val with
  | true, .ptr _ memory => ⟨allocSize dl ty, memory⟩
  | _, _ => (coerceToType target val (Ty.lower dl ty)).stored dl

/-- A structured value of a type, which is copied as a whole. -/
def storeImage (dl : DataLayout) (ty : Ty) (image : Image) : Stored := ⟨allocSize dl ty, image⟩

section Emission

-- `value k denoter ty` is the value of arm `k`, emitted for a denoter and stored as a type.
variable (dl : DataLayout) (value : Nat → Option Ty → Ty → Except Stop Stored) (steps : Nat)

def labelIndex : Option Int64 → Except Stop Int64
  | some folded => .ok folded
  | none => .error (.codegenICE
      "array constructor has an index that is not a constant this can work out")

section Array

variable (index : IndexRange) (elem : Ty)

/-- An index outside the array is passed over. -/
def storeAt (val : Stored) (image : Image) (idx : Int64) : Image :=
  if idx.toInt < index.lo ∨ index.hi < idx.toInt then image
  else put ((idx.toInt - index.lo).toNat * allocSize dl elem) val.size val.bytes image

def emitLabel (val : Stored) (image : Image) : Label → Except Stop Image
  | .range low high => do
      let rlo ← labelIndex low
      let rhi ← labelIndex high
      let walked ← loop steps rlo rhi
      return walked.foldl (storeAt dl index elem val) image
  | .expr _ folded => do
      let idx ← labelIndex folded
      return storeAt dl index elem val image idx

def emitOtherwise (image : Image) (arm : Arm × Nat) : Except Stop Image :=
  if !arm.1.isOtherwise then .ok image
  else do
    let val ← value arm.2 (some elem) elem
    let walked ← loop steps (firstIndex index) (lastIndex index)
    return walked.foldl (storeAt dl index elem val) image

def emitArm (image : Image) (arm : Arm × Nat) : Except Stop Image :=
  if arm.1.isOtherwise then .ok image
  else do
    let val ← value arm.2 (some elem) elem
    arm.1.labels.foldlM (emitLabel dl steps index elem val) image

end Array

/-- The completers first, then the other arms over them. -/
def emitArray (arms : List Arm) : Option Ty → Except Stop Image
  | some (.array index elem) =>
      match ordinalRangeCount index with
      | none => .error (.codegenICE "array constructor has more elements than plang can represent")
      | some _ => do
          let filled ← arms.zipIdx.foldlM (emitOtherwise dl value steps index elem) fun _ => 0
          arms.zipIdx.foldlM (emitArm dl value steps index elem) filled
  | _ => .error (.codegenICE
      "array constructor has no array declaration to take its bounds and element type from")

/-- A label that is not the name of a field with an element is passed over. -/
def emitField (packed : Bool) (fields : Fields) (variant : Variant) (k : Nat) (image : Image) :
    Label → Except Stop Image
  | .expr (some name) _ =>
      match findField dl packed fields variant name with
      | some (some offset, ty) => do
          let val ← value k (fieldDenoter fields variant name) ty
          return put offset val.size val.bytes image
      | _ => .ok image
  | _ => .ok image

def emitRecord (arms : List Arm) : Option Ty → Except Stop Image
  | some (.record packed fields variant) =>
      arms.zipIdx.foldlM (fun image arm =>
        arm.1.labels.foldlM (emitField dl value packed fields variant arm.2) image) fun _ => 0
  | _ => .error (.codegenICE
      "record constructor has no record declaration to take its fields from")

/-- `emitStructuredValue` for a shape. -/
def emitArms (kind : TypeKind) (arms : List Arm) (shape : Option Ty) : Except Stop Image :=
  match kind with
  | .array => emitArray dl value steps arms shape
  | .record => emitRecord dl value arms shape

end Emission

section Values

variable {ε : Type} (dl : DataLayout) (target : Conversions) (EmitExpr : ε → Register) (steps : Nat)

mutual

/-- A value that is emitted for a denoter and stored as a type. -/
def Value.emit : Value ε → Option Ty → Ty → Except Stop Stored
  | .expr e, _, ty => .ok (storeComponent dl target (EmitExpr e) ty)
  | .structured kind arms, denoter, ty =>
      (emitArms dl (fun k => Arms.emit arms k) steps kind arms.heads denoter).map
        (storeImage dl ty)

/-- The value of an arm. -/
def Arms.emit : Arms ε → Nat → Option Ty → Ty → Except Stop Stored
  | .nil, _, _, ty => .ok (storeImage dl ty fun _ => 0)
  | .cons _ value _, 0, denoter, ty => Value.emit value denoter ty
  | .cons _ _ rest, k + 1, denoter, ty => Arms.emit rest k denoter ty

end

end Values

end Plang.CodeGen.StructuredValue
