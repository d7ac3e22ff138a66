import Plang.Sema.ByteSizes

/-!
# Record types of the generator

The types that the generator lowers to, what a target's data layout says of them, and the places
that it gives the fields of a record: elements of its own, or offsets into the storage of the arms.
-/

namespace Plang.CodeGen.RecordTypes

open Plang.Sema.Storage StructLayout

/-! ### Data layouts -/

/-- The types of the target. -/
inductive LType where
  | int (bits : Nat)
  | float
  | double
  | ptr
  | array (count : Nat) (elem : LType)
  | struct (packed : Bool) (elems : List LType)

/-- The alignments that a target gives. -/
structure DataLayout where
  intAlign : Nat → Nat
  floatAlign : Nat
  doubleAlign : Nat
  pointerBytes : Nat
  pointerAlign : Nat

/-- The layout of x86-64 and AArch64. -/
def lp64 : DataLayout where
  intAlign bits := min 16 (intBytes bits)
  floatAlign := 4
  doubleAlign := 8
  pointerBytes := 8
  pointerAlign := 8

/-- A size as it is allocated, in whole alignments. -/
def allocated (size align : Nat) : Shape := ⟨roundUp size align, align⟩

def pack (packed : Bool) (shape : Shape) : Shape := if packed then ⟨shape.size, 1⟩ else shape

mutual

/-- The allocated size of a value of a type, and its alignment. -/
def LType.shape (dl : DataLayout) : LType → Shape
  | .int bits => allocated ((bits + 7) / 8) (dl.intAlign bits)
  | .float => allocated 4 dl.floatAlign
  | .double => allocated 8 dl.doubleAlign
  | .ptr => allocated dl.pointerBytes dl.pointerAlign
  | .array count elem => ⟨count * (elem.shape dl).size, (elem.shape dl).align⟩
  | .struct packed elems => StructLayout.struct (shapesOf dl packed elems)

/-- The shapes of the elements of a structure. -/
def shapesOf (dl : DataLayout) (packed : Bool) : List LType → List Shape
  | [] => []
  | elem :: rest => pack packed (elem.shape dl) :: shapesOf dl packed rest

end

/-! ### Lowering -/

def Cell.lower : Cell → LType
  | .ordinal width => .int width.bits
  | .boolean => .int 1
  | .char => .int 8
  | .real => .double
  | .single => .float
  | .complex => .struct false [.double, .double]
  | .set => .int plangMaxSetElements
  | .pointer => .ptr
  | .varString capacity => .struct false [.int 64, .array (capacityOf capacity) (.int 8)]
  | .shortString capacity => .struct true [.int 8, .array (capacityOf capacity) (.int 8)]
  | .file =>
      .struct false [.ptr, .ptr, .int 64, .int 32, .int 8, .int 8, .int 8,
        .array plangFileNameCap (.int 8), .int 32, .int 64]

/-- The cells that the storage of a variant part is made of. -/
def variantBlobType (size align : Nat) : LType :=
  let unit := if 16 ≤ align then 16 else if 8 ≤ align then 8 else if 4 ≤ align then 4
    else if 2 ≤ align then 2 else 1
  .array ((size + unit - 1) / unit) (.int (8 * unit))

/-- The place at which one more component of an arm ends. -/
def placeIn (dl : DataLayout) (packed : Bool) (position : Nat) (ty : LType) : Nat :=
  u64 (roundUp64 position (if packed then 1 else (ty.shape dl).align) + (ty.shape dl).size)

mutual

def Ty.lower (dl : DataLayout) : Ty → LType
  | .cell kind => Cell.lower kind
  | .array index elem => .array index.count (Ty.lower dl elem)
  | .record packed fields variant =>
      .struct packed (Fields.lower dl fields ++ Variant.lower dl packed variant)
  | .object object => .struct false (Obj.lower dl object)
  | .schemaInstance body => Ty.lower dl body

/-- An ancestor is one element, in front of an object's own. -/
def Obj.lower (dl : DataLayout) : Obj → List LType
  | .root fields declares => Fields.lower dl fields ++ if declares then [.ptr] else []
  | .derived parent fields declares =>
      .struct false (Obj.lower dl parent) ::
        (Fields.lower dl fields ++ if declares && !parent.hasVmt then [.ptr] else [])

def Fields.lower (dl : DataLayout) : Fields → List LType
  | .nil => []
  | .cons _ ty rest => Ty.lower dl ty :: Fields.lower dl rest

/-- The tag field and the storage of the arms, where they take any. -/
def Variant.lower (dl : DataLayout) (packed : Bool) : Variant → List LType
  | .absent => []
  | .tagged _ tagType cases =>
      let size := Cases.reach dl packed 0 cases 0
      Ty.lower dl tagType ::
        if 0 < size then [variantBlobType size (if packed then 1 else Cases.runAlign dl cases)] else []
  | .tagless cases =>
      let size := Cases.reach dl packed 0 cases 0
      if 0 < size then [variantBlobType size (if packed then 1 else Cases.runAlign dl cases)] else []

/-- The place at which the fields of an arm end. -/
def Fields.reach (dl : DataLayout) (packed : Bool) : Fields → Nat → Nat
  | .nil, position => position
  | .cons _ ty rest, position => Fields.reach dl packed rest (placeIn dl packed position (Ty.lower dl ty))

/-- The place at which a variant part of an arm ends. -/
def Variant.reach (dl : DataLayout) (packed : Bool) : Variant → Nat → Nat
  | .absent, position => position
  | .tagged _ tagType cases, position =>
      let after := placeIn dl packed position (Ty.lower dl tagType)
      Cases.reach dl packed after cases after
  | .tagless cases, position => Cases.reach dl packed position cases position

/-- `layoutVariantCase` for arms that start at one base, and the furthest end so far. -/
def Cases.reach (dl : DataLayout) (packed : Bool) (base : Nat) : Cases → Nat → Nat
  | .nil, furthest => furthest
  | .cons fields nested rest, furthest =>
      Cases.reach dl packed base rest
        (max furthest (Variant.reach dl packed nested (Fields.reach dl packed fields base)))

/-- The alignment of a denoter. -/
def Ty.rtAlign (dl : DataLayout) : Ty → Nat
  | .cell kind =>
      match kind with
      | .varString _ => 8
      | .shortString _ => 1
      | kind => ((Cell.lower kind).shape dl).align
  | .array _ elem => Ty.rtAlign dl elem
  | .record packed fields variant =>
      if packed then 1 else max (Fields.rtAlign dl fields) (Variant.rtAlign dl variant)
  | .object object => ((LType.struct false (Obj.lower dl object)).shape dl).align
  | .schemaInstance body => Ty.rtAlign dl body

def Fields.rtAlign (dl : DataLayout) : Fields → Nat
  | .nil => 1
  | .cons _ ty rest => max (Ty.rtAlign dl ty) (Fields.rtAlign dl rest)

def Variant.rtAlign (dl : DataLayout) : Variant → Nat
  | .absent => 1
  | .tagged _ tagType cases => max (Ty.rtAlign dl tagType) (Cases.runAlign dl cases)
  | .tagless cases => Cases.runAlign dl cases

/-- The alignment of the arms: that of their fields, and of the tags and arms inside them. -/
def Cases.runAlign (dl : DataLayout) : Cases → Nat
  | .nil => 1
  | .cons fields nested rest =>
      max (max (Fields.rtAlign dl fields) (Variant.rtAlign dl nested)) (Cases.runAlign dl rest)

end

/-! ### Places of fields -/

/-- An element of the structure, or an offset into the element that the arms share. -/
structure FieldPlace where
  name : Text
  index : Nat
  inVariant : Bool
  offset : Nat
  deriving DecidableEq, Repr

def Fields.places : Fields → Nat → List FieldPlace
  | .nil, _ => []
  | .cons name _ rest, index => ⟨name, index, false, 0⟩ :: Fields.places rest (index + 1)

/-- The fields of an arm, in the element that the arms share. -/
def Fields.placesIn (dl : DataLayout) (packed : Bool) (blob : Nat) : Fields → Nat → List FieldPlace
  | .nil, _ => []
  | .cons name ty rest, position =>
      ⟨name, blob, true,
          roundUp64 position (if packed then 1 else ((Ty.lower dl ty).shape dl).align)⟩ ::
        Fields.placesIn dl packed blob rest (placeIn dl packed position (Ty.lower dl ty))

mutual

def Variant.placesIn (dl : DataLayout) (packed : Bool) (blob : Nat) :
    Variant → Nat → List FieldPlace
  | .absent, _ => []
  | .tagged tagField tagType cases, position =>
      ⟨tagField, blob, true,
          roundUp64 position (if packed then 1 else ((Ty.lower dl tagType).shape dl).align)⟩ ::
        Cases.placesIn dl packed blob cases (placeIn dl packed position (Ty.lower dl tagType))
  | .tagless cases, position => Cases.placesIn dl packed blob cases position

def Cases.placesIn (dl : DataLayout) (packed : Bool) (blob : Nat) : Cases → Nat → List FieldPlace
  | .nil, _ => []
  | .cons fields nested rest, base =>
      Fields.placesIn dl packed blob fields base ++
        (Variant.placesIn dl packed blob nested (Fields.reach dl packed fields base) ++
          Cases.placesIn dl packed blob rest base)

end

def Fields.length : Fields → Nat
  | .nil => 0
  | .cons _ _ rest => Fields.length rest + 1

/-- The places of a record's variant part: its tag is an element of its own. -/
def Variant.places (dl : DataLayout) (packed : Bool) (index : Nat) : Variant → List FieldPlace
  | .absent => []
  | .tagged tagField _ cases =>
      ⟨tagField, index, false, 0⟩ :: Cases.placesIn dl packed (index + 1) cases 0
  | .tagless cases => Cases.placesIn dl packed index cases 0

/-- Where a field is in a structure, if the structure has the element. -/
def FieldPlace.offsetIn (shapes : List Shape) (place : FieldPlace) : Option Nat :=
  (elementOffset shapes place.index).map fun offset =>
    offset + if place.inVariant then place.offset else 0

/-- The fields of a record, where the generator has them. -/
def fieldOffsets (dl : DataLayout) (packed : Bool) (fields : Fields) (variant : Variant) :
    List (Text × Option Nat) :=
  let shapes := shapesOf dl packed (Fields.lower dl fields ++ Variant.lower dl packed variant)
  (Fields.places fields 0 ++ Variant.places dl packed (Fields.length fields) variant).map fun place =>
    (place.name, place.offsetIn shapes)

/-! ### Targets that suit a type -/

mutual

/-- The target has every component of a type as the checker does, and has integers to make the
storage of its variant parts of. -/
def Ty.suits (dl : DataLayout) (pointer : PointerWidth) : Ty → Bool
  | .cell kind => (Cell.lower kind).shape dl = kind.shape pointer
  | .array _ elem => Ty.suits dl pointer elem
  | .record packed fields variant =>
      let unit := slotsAlign (variant.arms pointer packed).slots
      decide ((LType.int (8 * unit)).shape dl = ⟨unit, unit⟩) &&
        (Fields.suits dl pointer fields && Variant.suits dl pointer variant)
  | .object object => Obj.suits dl pointer object
  | .schemaInstance body => Ty.suits dl pointer body

def Obj.suits (dl : DataLayout) (pointer : PointerWidth) : Obj → Bool
  | .root fields declares =>
      Fields.suits dl pointer fields && (!declares || decide (LType.ptr.shape dl = vptrSlot.shape))
  | .derived parent fields declares =>
      Obj.suits dl pointer parent && (Fields.suits dl pointer fields &&
        (!(declares && !parent.hasVmt) || decide (LType.ptr.shape dl = vptrSlot.shape)))

def Fields.suits (dl : DataLayout) (pointer : PointerWidth) : Fields → Bool
  | .nil => true
  | .cons _ ty rest => Ty.suits dl pointer ty && Fields.suits dl pointer rest

def Variant.suits (dl : DataLayout) (pointer : PointerWidth) : Variant → Bool
  | .absent => true
  | .tagged _ tagType cases => Ty.suits dl pointer tagType && Cases.suits dl pointer cases
  | .tagless cases => Cases.suits dl pointer cases

def Cases.suits (dl : DataLayout) (pointer : PointerWidth) : Cases → Bool
  | .nil => true
  | .cons fields nested rest =>
      Fields.suits dl pointer fields && (Variant.suits dl pointer nested && Cases.suits dl pointer rest)

end

end Plang.CodeGen.RecordTypes
